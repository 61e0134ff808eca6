import Neuralbase.Operator.Safety
import Mathlib

namespace Neuralbase.Operator

open Neuralbase.Library Neuralbase.Consensus Neuralbase.Consensus.ClusterMembership

/-! Calling `reconcile` and carrying out its plan, over and over.  Executions are
ideal: what the operator asks for happens, and every process then catches up. -/

def ProcessObservation.identity (p : ProcessObservation) : String × String × Bool :=
  (p.cluster, p.endpoint, p.learnerBootstrap)

/-- Every member's process is ready and has applied what the leader vouches for, and the
leader knows that the others have it.  Nothing is asked of a process that is no member. -/
def CaughtUp (o : Observation) : Prop :=
  ∀ id ∈ o.committed.replicationTargets, ∀ p, o.processes.get id = some p →
    p.ready = true ∧ o.authorityIndex ≤ p.applied ∧
      (id ≠ o.leader → o.authorityIndex ≤ o.matchedAt id)

/-- An observation that agrees with the desired topology, however far it is from it. -/
structure Agrees (d : DesiredTopology) (o : Observation) : Prop where
  topology : d.validate = .ok ()
  cluster : o.cluster = d.cluster
  revision : o.acceptedRevision = d.revision
  membership : o.committed.Valid
  stable : o.committed.joint = none
  settled : o.transitionPending = false
  authority : o.authorityIndex ≠ 0
  term : o.term ≠ 0
  configIndex : o.committed.configIndex ≤ o.authorityIndex
  leader : o.leader ∈ o.committed.voters
  untombstoned : Disjoint d.voters o.committed.removed
  members : ∀ id ∈ o.committed.replicationTargets, d.endpoints.get id ≠ none
  processes : ∀ id p, o.processes.get id = some p →
    p.cluster = d.cluster ∧ d.endpoints.get id = some p.endpoint
  voters : ∀ id ∈ o.committed.voters, o.hasProcess id = true
  learners : ∀ id p, o.processes.get id = some p → id ∉ o.committed.replicationTargets →
    id ∉ o.committed.removed → p.learnerBootstrap = true
  caughtUp : CaughtUp o
  matched : o.matched.entries.length ≤ maxOperatorNodes

/-- The process of `id` is still the same one. -/
def SameProcess (o after : Observation) (id : NodeId) : Prop :=
  (after.processes.get id).map ProcessObservation.identity =
    (o.processes.get id).map ProcessObservation.identity

/-- A process runs under `id` at its endpoint. -/
def RunsAt (d : DesiredTopology) (after : Observation) (id : NodeId) (p : ProcessObservation) : Prop :=
  after.processes.get id = some p ∧ p.cluster = d.cluster ∧ d.endpoints.get id = some p.endpoint

structure Ideal (d : DesiredTopology) (o after : Observation) : Prop where
  cluster : after.cluster = o.cluster
  revision : after.acceptedRevision = o.acceptedRevision
  settled : after.transitionPending = false
  authority : after.authorityIndex ≠ 0
  term : after.term ≠ 0
  configIndex : after.committed.configIndex ≤ after.authorityIndex
  caughtUp : CaughtUp after
  matched : after.matched.entries.length ≤ maxOperatorNodes

/-- `after` is what an ideal execution of the action leaves. -/
inductive Executes (d : DesiredTopology) (o : Observation) : Action → Observation → Prop where
  | createLearner (id : NodeId) (p : ProcessObservation) (after : Observation) (ideal : Ideal d o after)
      (committed : after.committed = o.committed) (leader : after.leader = o.leader)
      (runs : RunsAt d after id p) (learner : p.learnerBootstrap = true)
      (others : ∀ other, other ≠ id → SameProcess o after other) :
      Executes d o (.createLearner id) after
  | restartMember (id : NodeId) (p : ProcessObservation) (after : Observation) (ideal : Ideal d o after)
      (committed : after.committed = o.committed) (leader : after.leader = o.leader)
      (runs : RunsAt d after id p) (others : ∀ other, other ≠ id → SameProcess o after other) :
      Executes d o (.restartMember id) after
  | changeMembership (action : Action) (change : MembershipChange) (index finalIndex : Nat)
      (after : Observation) (changes : action.membershipChange = some change) (ideal : Ideal d o after)
      (carried : carryThrough o.committed change index finalIndex = .ok after.committed)
      (leader : after.leader = o.leader) (processes : ∀ id, SameProcess o after id) :
      Executes d o action after
  | transferLeadership (target : NodeId) (after : Observation) (ideal : Ideal d o after)
      (committed : after.committed = o.committed) (leader : after.leader = target)
      (processes : ∀ id, SameProcess o after id) : Executes d o (.transferLeadership target) after
  | stopRemoved (id : NodeId) (after : Observation) (ideal : Ideal d o after)
      (committed : after.committed = o.committed) (leader : after.leader = o.leader)
      (stopped : after.processes.get id = none)
      (others : ∀ other, other ≠ id → SameProcess o after other) : Executes d o (.stopRemoved id) after

def Round (d : DesiredTopology) (o after : Observation) : Prop :=
  ∃ plan, reconcile d o = .ok plan ∧ Executes d o plan.action after

def Rounds (d : DesiredTopology) : Nat → Observation → Observation → Prop
  | 0, o, after => after = o
  | rounds + 1, o, after => ∃ middle, Round d o middle ∧ Rounds d rounds middle after

section Distance

/-- How many rounds an id can still take: a desired one is created, added and promoted;
another is admitted, removed and stopped, and its removal may uncover the leader. -/
def cost (d : DesiredTopology) (m : ClusterMembership) (present : Bool) (id : NodeId) : Nat :=
  if id ∈ d.voters then
    (if id ∈ m.voters then 0 else if id ∈ m.learners then 1 else 2) + (if present then 0 else 1)
  else if id ∈ m.learners ∨ id ∈ m.voters then 2 + (if present then 1 else 0)
  else if present then (if id ∈ m.removed then 1 else 4)
  else 0

def inventory (d : DesiredTopology) : Finset NodeId := (d.endpoints.entries.map Prod.fst).toFinset

def leaving (d : DesiredTopology) (o : Observation) : Nat :=
  if (ascending (o.committed.replicationTargets \ d.voters)).head? = some o.leader then 1 else 0

def distance (d : DesiredTopology) (o : Observation) : Nat :=
  (∑ id ∈ inventory d, cost d o.committed (o.hasProcess id) id) + leaving d o

variable {d : DesiredTopology} {o after : Observation} {id : NodeId}

theorem mem_inventory : id ∈ inventory d ↔ d.endpoints.get id ≠ none := by
  unfold inventory
  rw [List.mem_toFinset, List.mem_map, Ne, Option.eq_none_iff_forall_ne_some, not_forall]
  constructor
  · rintro ⟨⟨key, address⟩, inside, rfl⟩
    exact ⟨address, not_not.mpr (SortedMap.mem_entries.mp inside)⟩
  · rintro ⟨address, found⟩
    exact ⟨(id, address), SortedMap.mem_entries.mpr (not_not.mp found), rfl⟩

theorem distance_lt (known : id ∈ inventory d)
    (others : ∀ other, other ≠ id → cost d after.committed (after.hasProcess other) other =
      cost d o.committed (o.hasProcess other) other)
    (falls : cost d after.committed (after.hasProcess id) id + leaving d after <
      cost d o.committed (o.hasProcess id) id + leaving d o) : distance d after < distance d o := by
  have rest : ∑ other ∈ (inventory d).erase id, cost d after.committed (after.hasProcess other) other =
      ∑ other ∈ (inventory d).erase id, cost d o.committed (o.hasProcess other) other :=
    Finset.sum_congr rfl fun other inside => others other (Finset.ne_of_mem_erase inside)
  unfold distance
  rw [← Finset.add_sum_erase _ _ known, ← Finset.add_sum_erase _ _ known, rest]
  omega

theorem cost_le (present : Bool) (m : ClusterMembership) : cost d m present id ≤ 4 := by
  unfold cost
  split_ifs <;> omega

theorem leaving_le : leaving d o ≤ 1 := by
  unfold leaving
  split_ifs <;> omega

theorem validate_inventory (valid : d.validate = .ok ()) : (inventory d).card ≤ maxOperatorNodes := by
  obtain ⟨-, valid⟩ := guard_eq_ok.mp valid
  obtain ⟨size, -⟩ := guard_eq_ok.mp valid
  have card := List.toFinset_card_le (d.endpoints.entries.map Prod.fst)
  rw [List.length_map] at card
  unfold inventory
  omega

theorem distance_le (valid : d.validate = .ok ()) : distance d o ≤ 513 := by
  have total := Finset.sum_le_card_nsmul (inventory d)
    (fun id => cost d o.committed (o.hasProcess id) id) 4 fun id _ => cost_le _ _
  have size := validate_inventory valid
  have last := leaving_le (d := d) (o := o)
  simp only [smul_eq_mul, maxOperatorNodes] at total size
  unfold distance
  omega

theorem cost_congr {m next : ClusterMembership} {present : Bool}
    (voters : id ∈ next.voters ↔ id ∈ m.voters) (learners : id ∈ next.learners ↔ id ∈ m.learners)
    (removed : id ∈ next.removed ↔ id ∈ m.removed) : cost d next present id = cost d m present id := by
  simp only [cost, voters, learners, removed]

end Distance

section Unblocked

variable {d : DesiredTopology} {o : Observation} {id : NodeId}

theorem mem_ready : id ∈ o.ready ↔ ∃ p, o.processes.get id = some p ∧ o.confirmed p = true := by
  unfold Observation.ready
  simp only [List.mem_toFinset, List.mem_map, List.mem_filter, Prod.exists, exists_and_right,
    exists_eq_right, SortedMap.mem_entries]

theorem hasProcess_eq_true : o.hasProcess id = true ↔ ∃ p, o.processes.get id = some p :=
  Option.isSome_iff_exists

theorem Agrees.ready (agrees : Agrees d o) (member : id ∈ o.committed.replicationTargets)
    (present : o.hasProcess id = true) : id ∈ o.ready := by
  obtain ⟨p, found⟩ := hasProcess_eq_true.mp present
  obtain ⟨ready, applied, -⟩ := agrees.caughtUp id member p found
  exact mem_ready.mpr ⟨p, found, by simp [Observation.confirmed, ready, applied]⟩

theorem Agrees.mem_targets (agrees : Agrees d o) (member : id ∈ o.committed.learners ∨ id ∈ o.committed.voters) :
    id ∈ o.committed.replicationTargets := by
  rwa [replicationTargets_stable agrees.stable, Finset.mem_union]

theorem Agrees.voters_ready (agrees : Agrees d o) : o.committed.voters ⊆ o.ready :=
  fun id voter => agrees.ready (agrees.mem_targets (.inr voter)) (agrees.voters id voter)

theorem majority_of_subset {set votes : Finset NodeId} (nonempty : set.Nonempty) (inside : set ⊆ votes) :
    majority set ≤ votesIn set votes := by
  have positive := nonempty.card_pos
  unfold majority votesIn
  rw [Finset.inter_eq_left.mpr inside]
  omega

theorem entries_length_le {β : Type} {map : SortedMap NodeId β} (valid : d.validate = .ok ())
    (known : ∀ id, map.get id ≠ none → d.endpoints.get id ≠ none) : map.entries.length ≤ maxOperatorNodes := by
  have nodup : (map.entries.map Prod.fst).Nodup :=
    List.pairwise_map.mpr (map.sorted.imp fun below same => absurd below (by simp [same]))
  have inside : (map.entries.map Prod.fst).toFinset ⊆ inventory d := by
    intro id member
    obtain ⟨⟨key, value⟩, found, rfl⟩ := List.mem_map.mp (List.mem_toFinset.mp member)
    exact mem_inventory.mpr (known key (by simp [SortedMap.mem_entries.mp found]))
  have card := Finset.card_le_card inside
  rw [List.toFinset_card_of_nodup nodup, List.length_map] at card
  exact card.trans (validate_inventory valid)

theorem Agrees.accepted (agrees : Agrees d o) : Accepted d o where
  topology := agrees.topology
  membership := agrees.membership
  cluster := agrees.cluster
  revision := agrees.revision
  processes := entries_length_le agrees.topology fun id present => by
    obtain ⟨p, found⟩ := Option.ne_none_iff_exists'.mp present
    simp [(agrees.processes id p found).2]
  matched := agrees.matched
  members := (Finset.card_le_card fun id member => mem_inventory.mpr (agrees.members id member)).trans
    (validate_inventory agrees.topology)

theorem Agrees.nextAction_eq (agrees : Agrees d o) : nextAction d o = nextChange d o := by
  have leader : o.committed.isVoter o.leader = true := by
    simpa [isVoter, agrees.stable] using agrees.leader
  have conflict : conflictingProcess d o = false := by
    rw [conflictingProcess, List.any_eq_false]
    rintro ⟨id, p⟩ inside
    obtain ⟨cluster, endpoint⟩ := agrees.processes id p (SortedMap.mem_entries.mp inside)
    simp [cluster, endpoint]
  have managed : ¬ unmanagedMember d o := by
    rintro ⟨id, member, unknown⟩
    exact agrees.members id member unknown
  have quorum : o.committed.hasVoteQuorum o.ready = true :=
    (hasVoteQuorum_stable agrees.stable).mpr
      (majority_of_subset agrees.membership.voters agrees.voters_ready)
  have joint : o.committed.isJoint = false := by simp [isJoint, agrees.stable]
  have configIndex := agrees.configIndex
  simp [nextAction, agrees.authority, agrees.term, leader, not_lt.mpr configIndex, agrees.settled, joint,
    conflict, managed, agrees.untombstoned, quorum]

theorem Agrees.admit_acts (agrees : Agrees d o) (desired : id ∈ d.voters)
    (voter : id ∉ o.committed.voters) : (admitVoter o id).isBlocked = false := by
  have removed : id ∉ o.committed.removed := Finset.disjoint_left.mp agrees.untombstoned desired
  unfold admitVoter
  cases found : o.processes.get id with
  | none =>
    dsimp only
    split <;> rfl
  | some p =>
    by_cases learner : id ∈ o.committed.learners
    · have member := agrees.mem_targets (.inl learner)
      have ready := agrees.ready member (hasProcess_eq_true.mpr ⟨p, found⟩)
      have caughtUp := (agrees.caughtUp id member p found).2.2 fun leads => voter (leads ▸ agrees.leader)
      have quorum : ¬ (insert id o.committed.voters ∩ o.ready).card <
          (insert id o.committed.voters).card / 2 + 1 :=
        not_lt.mpr (majority_of_subset (Finset.insert_nonempty _ _)
          (Finset.insert_subset ready agrees.voters_ready))
      simp only [learner, ready, not_true_eq_false, not_lt.mpr caughtUp, or_self, if_false, quorum]
      rfl
    · have outside : id ∉ o.committed.replicationTargets := by
        simp [replicationTargets_stable agrees.stable, learner, voter]
      have bootstrap := agrees.learners id p found outside removed
      simp [learner, bootstrap, Action.isBlocked]

theorem Agrees.retire_acts (agrees : Agrees d o) (satisfied : d.voters ⊆ o.committed.voters)
    (undesired : id ∉ d.voters) : (retire d o id).isBlocked = false := by
  unfold retire
  by_cases voter : id ∈ o.committed.voters
  · have kept : d.voters ⊆ o.committed.voters.erase id := fun other desired =>
      Finset.mem_erase.mpr ⟨fun same => undesired (same ▸ desired), satisfied desired⟩
    obtain ⟨positive, floor⟩ := validate_floor agrees.topology
    have nonempty : d.voters.Nonempty := Finset.card_pos.mp (by omega)
    have survivors : o.committed.voters.erase id ⊆ o.ready :=
      (Finset.erase_subset _ _).trans agrees.voters_ready
    have enough : ¬ (o.committed.voters.erase id).card < d.minimumVoters :=
      not_lt.mpr (floor.trans (Finset.card_le_card kept))
    have quorum : ¬ (o.committed.voters.erase id ∩ o.ready).card <
        (o.committed.voters.erase id).card / 2 + 1 :=
      not_lt.mpr (majority_of_subset (nonempty.mono kept) survivors)
    have successor : id = o.leader → ∃ successor,
        ((ascending (o.committed.voters.erase id ∩ o.ready)).find? fun voter =>
          decide (o.authorityIndex ≤ o.matchedAt voter)) = some successor := by
      intro leads
      rw [← Option.isSome_iff_exists, List.find?_isSome]
      obtain ⟨target, desired⟩ := nonempty
      obtain ⟨p, found⟩ := hasProcess_eq_true.mp (agrees.voters target (satisfied desired))
      have caughtUp := (agrees.caughtUp target (agrees.mem_targets (.inr (satisfied desired))) p found).2.2
      exact ⟨target, mem_ascending.mpr (Finset.mem_inter.mpr ⟨kept desired, survivors (kept desired)⟩),
        decide_eq_true (caughtUp fun same => undesired (leads ▸ same ▸ desired))⟩
    have erased : o.committed.voters.filter (fun other => other ≠ id) = o.committed.voters.erase id :=
      Finset.filter_ne' _ _
    simp only [voter, if_true, erased, enough, quorum, or_self, if_false]
    split
    · rename_i leads
      obtain ⟨target, chosen⟩ := successor leads
      rw [chosen]
      rfl
    · rfl
  · simp [voter, Action.isBlocked]

theorem Agrees.cleanUp_acts (agrees : Agrees d o) (satisfied : d.voters ⊆ o.committed.voters) :
    (cleanUp d o).isBlocked = false := by
  have ready : d.voters ⊆ o.ready := satisfied.trans agrees.voters_ready
  unfold cleanUp
  split
  · rfl
  · split
    · rename_i id p found
      have process := SortedMap.mem_entries.mp (List.mem_of_find?_eq_some found)
      have outside := List.find?_some found
      simp only [withdrawn, Bool.and_eq_true, decide_eq_true_eq] at outside
      simp [agrees.learners id p process outside.1.2 outside.2, Action.isBlocked]
    · simp [ready, Action.isBlocked]

theorem Agrees.acts (agrees : Agrees d o) : (nextAction d o).isBlocked = false := by
  rw [agrees.nextAction_eq]
  unfold nextChange
  split
  · rfl
  · split
    · rename_i id first
      obtain ⟨desired, voter⟩ := Finset.mem_sdiff.mp (ascending_head_some first)
      exact agrees.admit_acts desired voter
    · rename_i none
      have satisfied := Finset.sdiff_eq_empty_iff_subset.mp (ascending_head_none none)
      split
      · rename_i id first
        exact agrees.retire_acts satisfied (first_undesired agrees.stable first).2
      · exact agrees.cleanUp_acts satisfied

end Unblocked

section Step

variable {d : DesiredTopology} {o after : Observation} {id : NodeId}

theorem SameProcess.hasProcess (same : SameProcess o after id) : after.hasProcess id = o.hasProcess id := by
  have present := congrArg Option.isSome same
  simpa only [Option.isSome_map, Observation.hasProcess] using present

theorem SameProcess.exists (same : SameProcess o after id) {p : ProcessObservation}
    (found : after.processes.get id = some p) :
    ∃ before, o.processes.get id = some before ∧ before.identity = p.identity := by
  unfold SameProcess at same
  rw [found, Option.map_some] at same
  obtain ⟨before, held, equal⟩ := Option.map_eq_some_iff.mp same.symm
  exact ⟨before, held, equal⟩

theorem Agrees.processes_after (agrees : Agrees d o)
    (each : ∀ id p, after.processes.get id = some p → SameProcess o after id ∨ RunsAt d after id p) :
    ∀ id p, after.processes.get id = some p → p.cluster = d.cluster ∧ d.endpoints.get id = some p.endpoint := by
  intro id p found
  rcases each id p found with same | runs
  · obtain ⟨before, held, equal⟩ := same.exists found
    have conforms := agrees.processes id before held
    simp only [ProcessObservation.identity, Prod.mk.injEq] at equal
    rw [← equal.1, ← equal.2.1]
    exact conforms
  · exact runs.2

theorem Agrees.after_process (agrees : Agrees d o) (ideal : Ideal d o after)
    (committed : after.committed = o.committed) (leader : after.leader ∈ o.committed.voters)
    (each : ∀ id p, after.processes.get id = some p → SameProcess o after id ∨ RunsAt d after id p)
    (voters : ∀ id ∈ o.committed.voters, after.hasProcess id = true)
    (learners : ∀ id p, after.processes.get id = some p → ¬ SameProcess o after id →
      id ∉ o.committed.replicationTargets → p.learnerBootstrap = true) : Agrees d after where
  topology := agrees.topology
  cluster := ideal.cluster.trans agrees.cluster
  revision := ideal.revision.trans agrees.revision
  membership := committed ▸ agrees.membership
  stable := committed ▸ agrees.stable
  settled := ideal.settled
  authority := ideal.authority
  term := ideal.term
  configIndex := ideal.configIndex
  leader := committed ▸ leader
  untombstoned := committed ▸ agrees.untombstoned
  members := committed ▸ agrees.members
  processes := agrees.processes_after each
  voters := committed ▸ voters
  learners := by
    intro id p found outside removed
    rw [committed] at outside removed
    by_cases same : SameProcess o after id
    · obtain ⟨before, held, equal⟩ := same.exists found
      simp only [ProcessObservation.identity, Prod.mk.injEq] at equal
      rw [← equal.2.2]
      exact agrees.learners id before held outside removed
    · exact learners id p found same outside
  caughtUp := ideal.caughtUp
  matched := ideal.matched

theorem Agrees.after_change (agrees : Agrees d o) (ideal : Ideal d o after)
    (valid : after.committed.Valid) (stable : after.committed.joint = none)
    (leader : after.leader ∈ after.committed.voters) (untombstoned : Disjoint d.voters after.committed.removed)
    (processes : ∀ id, SameProcess o after id) (members : ∀ id ∈ after.committed.replicationTargets,
      id ∈ o.committed.replicationTargets ∨ o.hasProcess id = true)
    (voters : ∀ id ∈ after.committed.voters, o.hasProcess id = true)
    (outside : ∀ id, id ∉ after.committed.replicationTargets → id ∉ after.committed.removed →
      id ∉ o.committed.replicationTargets ∧ id ∉ o.committed.removed) : Agrees d after where
  topology := agrees.topology
  cluster := ideal.cluster.trans agrees.cluster
  revision := ideal.revision.trans agrees.revision
  membership := valid
  stable := stable
  settled := ideal.settled
  authority := ideal.authority
  term := ideal.term
  configIndex := ideal.configIndex
  leader := leader
  untombstoned := untombstoned
  members := by
    intro id member
    rcases members id member with known | present
    · exact agrees.members id known
    · obtain ⟨p, found⟩ := hasProcess_eq_true.mp present
      simp [(agrees.processes id p found).2]
  processes := agrees.processes_after fun id _ _ => .inl (processes id)
  voters := fun id voter => (processes id).hasProcess.trans (voters id voter)
  learners := by
    intro id p found member removed
    obtain ⟨before, held, equal⟩ := (processes id).exists found
    obtain ⟨stranger, living⟩ := outside id member removed
    simp only [ProcessObservation.identity, Prod.mk.injEq] at equal
    rw [← equal.2.2]
    exact agrees.learners id before held stranger living
  caughtUp := ideal.caughtUp
  matched := ideal.matched

def Advances (d : DesiredTopology) (o after : Observation) : Prop :=
  Agrees d after ∧ distance d after < distance d o ∧
    after.committed.generation ≤ o.committed.generation + 2

theorem leaving_congr (committed : after.committed = o.committed) (leader : after.leader = o.leader) :
    leaving d after = leaving d o := by
  rw [leaving, leaving, committed, leader]

theorem advances_start (agrees : Agrees d o) {p : ProcessObservation} (ideal : Ideal d o after)
    (committed : after.committed = o.committed) (leader : after.leader = o.leader)
    (runs : RunsAt d after id p) (others : ∀ other, other ≠ id → SameProcess o after other)
    (desired : id ∈ d.voters) (absent : o.processes.get id = none)
    (learner : id ∉ o.committed.replicationTargets → p.learnerBootstrap = true) : Advances d o after := by
  have started : after.hasProcess id = true := hasProcess_eq_true.mpr ⟨p, runs.1⟩
  have missing : o.hasProcess id = false := by simp [Observation.hasProcess, absent]
  refine ⟨agrees.after_process ideal committed (leader ▸ agrees.leader) ?_ ?_ ?_, ?_, by rw [committed]; omega⟩
  · intro other q found
    by_cases same : other = id
    · subst same
      obtain rfl : p = q := Option.some.inj (runs.1.symm.trans found)
      exact .inr runs
    · exact .inl (others other same)
  · intro other voter
    by_cases same : other = id
    · exact same ▸ started
    · exact (others other same).hasProcess.trans (agrees.voters other voter)
  · intro other q found changed outside
    by_cases same : other = id
    · subst same
      obtain rfl : p = q := Option.some.inj (runs.1.symm.trans found)
      exact learner outside
    · exact absurd (others other same) changed
  · have known : id ∈ inventory d := mem_inventory.mpr (by simp [runs.2.2])
    refine distance_lt known ?_ ?_
    · intro other apart
      rw [committed, (others other apart).hasProcess]
    · rw [committed, leaving_congr committed leader, started, missing]
      simp only [cost, desired, if_true, Bool.false_eq_true, if_false]
      omega

theorem advances_transfer (agrees : Agrees d o) (ideal : Ideal d o after)
    (committed : after.committed = o.committed) (processes : ∀ id, SameProcess o after id)
    (first : (ascending (o.committed.replicationTargets \ d.voters)).head? = some o.leader)
    (survives : after.leader ∈ o.committed.voters) (other : after.leader ≠ o.leader) : Advances d o after := by
  have before : leaving d o = 1 := if_pos first
  have gone : leaving d after = 0 := by
    refine if_neg fun still => other ?_
    rw [committed, first] at still
    exact (Option.some.inj still).symm
  refine ⟨agrees.after_process ideal committed survives (fun id p _ => .inl (processes id))
    (fun id voter => (processes id).hasProcess.trans (agrees.voters id voter))
    (fun id p _ changed => absurd (processes id) changed), ?_, by rw [committed]; omega⟩
  have leader := mem_inventory.mpr (agrees.members o.leader
    (by simp [replicationTargets_stable agrees.stable, agrees.leader]))
  have same : ∀ id, cost d after.committed (after.hasProcess id) id =
      cost d o.committed (o.hasProcess id) id := by
    intro id
    rw [committed, (processes id).hasProcess]
  exact distance_lt leader (fun id _ => same id) (by rw [same, before, gone]; omega)

theorem advances_stop (agrees : Agrees d o) (ideal : Ideal d o after)
    (committed : after.committed = o.committed) (leader : after.leader = o.leader)
    (stopped : after.processes.get id = none) (others : ∀ other, other ≠ id → SameProcess o after other)
    (removed : id ∈ o.committed.removed) (present : o.hasProcess id = true) : Advances d o after := by
  have voter : id ∉ o.committed.voters := fun inside =>
    Finset.disjoint_left.mp agrees.membership.votersRemoved inside removed
  have learner : id ∉ o.committed.learners := fun inside =>
    Finset.disjoint_left.mp agrees.membership.learnersRemoved inside removed
  have undesired : id ∉ d.voters := Finset.disjoint_right.mp agrees.untombstoned removed
  have absent : after.hasProcess id = false := by simp [Observation.hasProcess, stopped]
  have kept : ∀ other p, after.processes.get other = some p → SameProcess o after other := by
    intro other p found
    refine others other ?_
    rintro rfl
    rw [stopped] at found
    cases found
  refine ⟨agrees.after_process ideal committed (leader ▸ agrees.leader)
    (fun other p found => .inl (kept other p found)) ?_
    (fun other p found changed => absurd (kept other p found) changed), ?_, by rw [committed]; omega⟩
  · intro other inside
    have apart : other ≠ id := fun same => voter (same ▸ inside)
    exact (others other apart).hasProcess.trans (agrees.voters other inside)
  · obtain ⟨p, found⟩ := hasProcess_eq_true.mp present
    have known : id ∈ inventory d := mem_inventory.mpr (by simp [(agrees.processes id p found).2])
    refine distance_lt known ?_ ?_
    · intro other apart
      rw [committed, (others other apart).hasProcess]
    · rw [committed, leaving_congr committed leader, absent, present]
      simp [cost, undesired, voter, learner, removed]

variable {index finalIndex : Nat}

theorem advances_add (agrees : Agrees d o) (ideal : Ideal d o after)
    (carried : carryThrough o.committed (.addLearner id) index finalIndex = .ok after.committed)
    (leader : after.leader = o.leader) (processes : ∀ id, SameProcess o after id)
    (voter : id ∉ o.committed.voters) (learner : id ∉ o.committed.learners) (present : o.hasProcess id = true)
    (falls : cost d after.committed true id + leaving d after < cost d o.committed true id + leaving d o) :
    Advances d o after := by
  have next := carried_addLearner carried
  refine ⟨agrees.after_change ideal next.valid next.stable ?_ ?_ processes ?_ ?_ ?_, ?_, next.generation⟩
  · rw [leader, next.voters]
    exact agrees.leader
  · rw [next.removed]
    exact agrees.untombstoned
  · intro other member
    rw [replicationTargets_stable next.stable, next.voters, next.learners] at member
    rw [replicationTargets_stable agrees.stable]
    simp only [Finset.mem_union, Finset.mem_insert] at member ⊢
    rcases member with (rfl | inside) | inside
    · exact .inr present
    · exact .inl (.inl inside)
    · exact .inl (.inr inside)
  · rw [next.voters]
    exact agrees.voters
  · intro other stranger living
    rw [replicationTargets_stable next.stable, next.voters, next.learners] at stranger
    rw [replicationTargets_stable agrees.stable]
    rw [next.removed] at living
    simp only [Finset.mem_union, Finset.mem_insert, not_or] at stranger ⊢
    exact ⟨⟨stranger.1.2, stranger.2⟩, living⟩
  · obtain ⟨p, found⟩ := hasProcess_eq_true.mp present
    have known : id ∈ inventory d := mem_inventory.mpr (by simp [(agrees.processes id p found).2])
    refine distance_lt known ?_ ?_
    · intro other apart
      rw [(processes other).hasProcess]
      exact cost_congr (by rw [next.voters]) (by simp [next.learners, apart]) (by rw [next.removed])
    · rw [(processes id).hasProcess, present]
      exact falls

theorem advances_promote (agrees : Agrees d o) (ideal : Ideal d o after)
    (carried : carryThrough o.committed (.promoteLearner id) index finalIndex = .ok after.committed)
    (leader : after.leader = o.leader) (processes : ∀ id, SameProcess o after id)
    (desired : id ∈ d.voters) (voter : id ∉ o.committed.voters) (learner : id ∈ o.committed.learners)
    (present : o.hasProcess id = true) : Advances d o after := by
  have next := carried_promoteLearner carried
  have targets : after.committed.replicationTargets = o.committed.replicationTargets := by
    rw [replicationTargets_stable next.stable, replicationTargets_stable agrees.stable, next.voters,
      next.learners, Finset.union_insert, ← Finset.insert_union, Finset.insert_erase learner]
  refine ⟨agrees.after_change ideal next.valid next.stable ?_ ?_ processes ?_ ?_ ?_, ?_, next.generation⟩
  · rw [leader, next.voters]
    exact Finset.mem_insert_of_mem agrees.leader
  · rw [next.removed]
    exact agrees.untombstoned
  · intro other member
    exact .inl (targets ▸ member)
  · intro other inside
    rw [next.voters] at inside
    rcases Finset.mem_insert.mp inside with rfl | inside
    · exact present
    · exact agrees.voters other inside
  · intro other stranger living
    exact ⟨targets ▸ stranger, next.removed ▸ living⟩
  · have known : id ∈ inventory d := mem_inventory.mpr (agrees.members id
      (by simp [replicationTargets_stable agrees.stable, learner]))
    refine distance_lt known ?_ ?_
    · intro other apart
      rw [(processes other).hasProcess]
      exact cost_congr (by simp [next.voters, apart]) (by simp [next.learners, apart])
        (by rw [next.removed])
    · have same : leaving d after = leaving d o := by rw [leaving, leaving, targets, leader]
      rw [(processes id).hasProcess, present, same]
      simp [cost, desired, voter, learner, next.voters]

theorem advances_remove (agrees : Agrees d o) (ideal : Ideal d o after)
    (carried : carryThrough o.committed (.removeNode id) index finalIndex = .ok after.committed)
    (leader : after.leader = o.leader) (processes : ∀ id, SameProcess o after id)
    (undesired : id ∉ d.voters) (member : id ∈ o.committed.learners ∨ id ∈ o.committed.voters)
    (follower : id ≠ o.leader) : Advances d o after := by
  have next := carried_removeNode carried
  refine ⟨agrees.after_change ideal next.valid next.stable ?_ ?_ processes ?_ ?_ ?_, ?_, next.generation⟩
  · rw [leader, next.voters]
    exact Finset.mem_erase.mpr ⟨follower.symm, agrees.leader⟩
  · rw [next.removed]
    exact Finset.disjoint_insert_right.mpr ⟨undesired, agrees.untombstoned⟩
  · intro other inside
    rw [replicationTargets_stable next.stable, next.voters, next.learners] at inside
    rw [replicationTargets_stable agrees.stable]
    simp only [Finset.mem_union, Finset.mem_erase] at inside ⊢
    exact .inl (inside.imp And.right And.right)
  · intro other inside
    rw [next.voters] at inside
    exact agrees.voters other (Finset.mem_of_mem_erase inside)
  · intro other stranger living
    rw [replicationTargets_stable next.stable, next.voters, next.learners] at stranger
    rw [next.removed, Finset.mem_insert, not_or] at living
    rw [replicationTargets_stable agrees.stable]
    simp only [Finset.mem_union, Finset.mem_erase, not_or, not_and] at stranger ⊢
    exact ⟨⟨stranger.1 living.1, stranger.2 living.1⟩, living.2⟩
  · have known : id ∈ inventory d := mem_inventory.mpr (agrees.members id
      (by simpa [replicationTargets_stable agrees.stable] using member))
    refine distance_lt known ?_ ?_
    · intro other apart
      rw [(processes other).hasProcess]
      exact cost_congr (by simp [next.voters, apart]) (by simp [next.learners, apart])
        (by simp [next.removed, apart])
    · have last := leaving_le (d := d) (o := after)
      rw [(processes id).hasProcess]
      simp only [cost, undesired, member, next.voters, next.learners, next.removed, Finset.mem_erase,
        Finset.mem_insert, ne_eq, not_true_eq_false, false_and, or_self, true_or, if_true, if_false]
      split <;> omega

theorem leaving_add (next : Carried o.committed after.committed index finalIndex o.committed.voters
      (insert id o.committed.learners) o.committed.removed) (stable : o.committed.joint = none)
    (desired : id ∈ d.voters) (leader : after.leader = o.leader) : leaving d after = leaving d o := by
  rw [leaving, leaving, leader, replicationTargets_stable next.stable, replicationTargets_stable stable,
    next.voters, next.learners, Finset.insert_union, Finset.insert_sdiff_of_mem _ desired]

theorem round_advances (agrees : Agrees d o) (round : Round d o after) : Advances d o after := by
  obtain ⟨plan, planned, executed⟩ := round
  obtain ⟨-, rfl⟩ := reconcile_eq_ok.mp planned
  obtain ⟨-, reasons⟩ := nextAction_planned agrees.acts
  dsimp only at executed
  generalize nextAction d o = action at reasons executed
  cases executed with
  | createLearner id p after ideal committed leader runs learner others =>
    cases reasons with
    | createLearner id desired _ _ absent =>
      exact advances_start agrees ideal committed leader runs others desired absent fun _ => learner
  | restartMember id p after ideal committed leader runs others =>
    cases reasons with
    | restartVoter id desired voter absent =>
      refine advances_start agrees ideal committed leader runs others desired absent fun outside => ?_
      simp [replicationTargets_stable agrees.stable, voter] at outside
    | restartLearner id desired _ learner absent =>
      refine advances_start agrees ideal committed leader runs others desired absent fun outside => ?_
      simp [replicationTargets_stable agrees.stable, learner] at outside
  | transferLeadership target after ideal committed leader processes =>
    cases reasons with
    | transferLeadership target satisfied first survives other =>
      subst leader
      exact advances_transfer agrees ideal committed processes first survives other
  | stopRemoved id after ideal committed leader stopped others =>
    cases reasons with
    | stopRemoved id removed present =>
      exact advances_stop agrees ideal committed leader stopped others removed present
  | changeMembership action change index finalIndex after changes ideal carried leader processes =>
    cases reasons with
    | restartVoter => cases changes
    | restartLearner => cases changes
    | createLearner => cases changes
    | transferLeadership => cases changes
    | stopRemoved => cases changes
    | converged => cases changes
    | addDesired id desired voter learner present =>
      cases changes
      have next := carried_addLearner carried
      refine advances_add agrees ideal carried leader processes voter learner present ?_
      rw [leaving_add next agrees.stable desired leader]
      simp [cost, desired, voter, learner, next.voters, next.learners]
    | addWithdrawn id satisfied members present outside =>
      cases changes
      have next := carried_addLearner carried
      simp only [withdrawn, Bool.and_eq_true, decide_eq_true_eq,
        replicationTargets_stable agrees.stable, Finset.mem_union, not_or] at outside
      obtain ⟨⟨undesired, learner, voter⟩, removed⟩ := outside
      refine advances_add agrees ideal carried leader processes voter learner present ?_
      have alone : after.committed.replicationTargets \ d.voters = {id} := by
        rw [replicationTargets_stable next.stable, next.voters, next.learners, Finset.insert_union,
          ← replicationTargets_stable agrees.stable, Finset.insert_sdiff_of_notMem _ undesired,
          Finset.sdiff_eq_empty_iff_subset.mpr members]
        rfl
      have staying : leaving d after = 0 := by
        refine if_neg fun first => voter ?_
        have same := ascending_head_some first
        rw [alone, Finset.mem_singleton, leader] at same
        exact same ▸ agrees.leader
      simp only [staying, cost, undesired, voter, learner, removed, next.voters, next.learners,
        Finset.mem_insert_self, true_or, or_self, if_true, if_false]
      omega
    | promoteLearner id desired voter learner ready =>
      cases changes
      obtain ⟨p, found, -⟩ := mem_ready.mp ready
      exact advances_promote agrees ideal carried leader processes desired voter learner
        (hasProcess_eq_true.mpr ⟨p, found⟩)
    | removeVoter id satisfied first voter follower =>
      cases changes
      exact advances_remove agrees ideal carried leader processes
        (first_undesired agrees.stable first).2 (.inr voter) follower
    | removeLearner id satisfied first voter =>
      cases changes
      obtain ⟨member, undesired⟩ := first_undesired agrees.stable first
      exact advances_remove agrees ideal carried leader processes undesired member
        fun same => voter (same ▸ agrees.leader)

end Step

section Progress

variable {d : DesiredTopology} {o : Observation} {id : NodeId} {action : Action}

theorem validate_voters (valid : d.validate = .ok ()) (desired : id ∈ d.voters) : d.endpoints.get id ≠ none := by
  obtain ⟨-, valid⟩ := guard_eq_ok.mp valid
  obtain ⟨-, valid⟩ := guard_eq_ok.mp valid
  obtain ⟨-, valid⟩ := guard_eq_ok.mp valid
  obtain ⟨-, valid⟩ := check_eq_ok.mp valid
  obtain ⟨known, -⟩ := guard_eq_ok.mp valid
  exact fun unknown => known ⟨id, desired, unknown⟩

/-- The observation in which these processes run under this membership and leader, and
all have caught up. -/
def caughtUpWith (o : Observation) (committed : ClusterMembership) (leader : NodeId)
    (processes : SortedMap NodeId ProcessObservation) : Observation :=
  let authorityIndex := max o.authorityIndex committed.configIndex
  { o with
    leader
    committed
    authorityIndex
    transitionPending := false
    processes := processes.mapValues fun p => { p with ready := true, applied := authorityIndex }
    matched := processes.mapValues fun _ => authorityIndex }

theorem ideal_caughtUpWith (agrees : Agrees d o) {committed : ClusterMembership} {leader : NodeId}
    {processes : SortedMap NodeId ProcessObservation}
    (known : ∀ id, processes.get id ≠ none → d.endpoints.get id ≠ none) :
    Ideal d o (caughtUpWith o committed leader processes) where
  cluster := rfl
  revision := rfl
  settled := rfl
  authority := by
    have positive := agrees.authority
    simp only [caughtUpWith]
    omega
  term := agrees.term
  configIndex := le_max_right _ _
  caughtUp := by
    intro id _ p found
    simp only [caughtUpWith, SortedMap.get_mapValues, Option.map_eq_some_iff] at found
    obtain ⟨before, held, rfl⟩ := found
    refine ⟨rfl, le_rfl, fun _ => ?_⟩
    simp [Observation.matchedAt, caughtUpWith, held]
  matched := by
    refine entries_length_le agrees.topology fun id present => known id fun absent => present ?_
    simp [caughtUpWith, absent]

theorem sameProcess_caughtUpWith {committed : ClusterMembership} {leader : NodeId}
    {processes : SortedMap NodeId ProcessObservation} (same : processes.get id = o.processes.get id) :
    SameProcess o (caughtUpWith o committed leader processes) id := by
  simp only [SameProcess, caughtUpWith, SortedMap.get_mapValues, same, Option.map_map]
  rfl

theorem known_processes (agrees : Agrees d o) (present : o.processes.get id ≠ none) : d.endpoints.get id ≠ none := by
  obtain ⟨p, found⟩ := Option.ne_none_iff_exists'.mp present
  simp [(agrees.processes id p found).2]

theorem exists_start (agrees : Agrees d o) (desired : id ∈ d.voters) :
    ∃ after p, Ideal d o after ∧ after.committed = o.committed ∧ after.leader = o.leader ∧
      RunsAt d after id p ∧ p.learnerBootstrap = true ∧ ∀ other, other ≠ id → SameProcess o after other := by
  obtain ⟨endpoint, listed⟩ := Option.ne_none_iff_exists'.mp (validate_voters agrees.topology desired)
  let p : ProcessObservation :=
    { cluster := d.cluster, endpoint, learnerBootstrap := true, ready := true, applied := 0 }
  refine ⟨caughtUpWith o o.committed o.leader (o.processes.put id p),
    { p with applied := max o.authorityIndex o.committed.configIndex }, ?_, rfl, rfl, ⟨?_, rfl, listed⟩,
    rfl, ?_⟩
  · refine ideal_caughtUpWith agrees fun other present => ?_
    by_cases same : other = id
    · subst same
      simp [listed]
    · rw [SortedMap.get_put_ne same] at present
      exact known_processes agrees present
  · simp [caughtUpWith, p]
  · intro other apart
    exact sameProcess_caughtUpWith (SortedMap.get_put_ne apart)

theorem exists_change (agrees : Agrees d o) {change : MembershipChange}
    (changes : action.membershipChange = some change)
    (carries : ∀ index finalIndex, ∃ next, carryThrough o.committed change index finalIndex = .ok next) :
    ∃ after, Executes d o action after := by
  obtain ⟨next, carried⟩ := carries (o.authorityIndex + 1) (o.authorityIndex + 2)
  exact ⟨_, .changeMembership action change _ _ (caughtUpWith o next o.leader o.processes) changes
    (ideal_caughtUpWith agrees fun _ present => known_processes agrees present) carried rfl
    fun _ => sameProcess_caughtUpWith rfl⟩

theorem exists_execution (agrees : Agrees d o) (planned : Planned d o action)
    (unfinished : action ≠ .converged) (room : o.committed.generation + 2 < 2 ^ 64) :
    ∃ after, Executes d o action after := by
  cases planned with
  | restartVoter id desired =>
    obtain ⟨after, p, ideal, committed, leader, runs, -, others⟩ := exists_start agrees desired
    exact ⟨after, .restartMember id p after ideal committed leader runs others⟩
  | restartLearner id desired =>
    obtain ⟨after, p, ideal, committed, leader, runs, -, others⟩ := exists_start agrees desired
    exact ⟨after, .restartMember id p after ideal committed leader runs others⟩
  | createLearner id desired =>
    obtain ⟨after, p, ideal, committed, leader, runs, learner, others⟩ := exists_start agrees desired
    exact ⟨after, .createLearner id p after ideal committed leader runs learner others⟩
  | addDesired id desired voter learner =>
    exact exists_change agrees rfl fun index finalIndex =>
      exists_carryThrough_addLearner index finalIndex agrees.membership agrees.stable voter learner
        (Finset.disjoint_left.mp agrees.untombstoned desired) room
  | addWithdrawn id satisfied members present outside =>
    simp only [withdrawn, Bool.and_eq_true, decide_eq_true_eq,
      replicationTargets_stable agrees.stable, Finset.mem_union, not_or] at outside
    exact exists_change agrees rfl fun index finalIndex =>
      exists_carryThrough_addLearner index finalIndex agrees.membership agrees.stable outside.1.2.2
        outside.1.2.1 outside.2 room
  | promoteLearner id desired voter learner =>
    exact exists_change agrees rfl fun index finalIndex =>
      exists_carryThrough_promoteLearner index finalIndex agrees.membership agrees.stable learner room
  | removeVoter id satisfied first voter follower =>
    have several : 1 < o.committed.voters.card :=
      Finset.one_lt_card.mpr ⟨id, voter, o.leader, agrees.leader, follower⟩
    exact exists_change agrees rfl fun index finalIndex =>
      exists_carryThrough_removeNode index finalIndex agrees.membership agrees.stable
        (.inr ⟨voter, several⟩) room
  | removeLearner id satisfied first voter =>
    have learner := (first_undesired agrees.stable first).1.resolve_right voter
    exact exists_change agrees rfl fun index finalIndex =>
      exists_carryThrough_removeNode index finalIndex agrees.membership agrees.stable (.inl learner) room
  | transferLeadership target =>
    exact ⟨_, .transferLeadership target (caughtUpWith o o.committed target o.processes)
      (ideal_caughtUpWith agrees fun _ present => known_processes agrees present) rfl rfl
      fun _ => sameProcess_caughtUpWith rfl⟩
  | stopRemoved id =>
    refine ⟨_, .stopRemoved id (caughtUpWith o o.committed o.leader (o.processes.delete id))
      (ideal_caughtUpWith agrees fun other present => ?_) rfl rfl ?_ ?_⟩
    · rw [SortedMap.get_delete] at present
      split at present
      · exact absurd rfl present
      · exact known_processes agrees present
    · simp [caughtUpWith, SortedMap.get_delete]
    · intro other apart
      exact sameProcess_caughtUpWith (SortedMap.get_delete_ne apart)
  | converged => exact absurd rfl unfinished

end Progress

section Runs

variable {d : DesiredTopology} {o after : Observation} {rounds : Nat}

def Observation.configuration (o : Observation) : ClusterMembership × (NodeId → Bool) × NodeId :=
  (o.committed, o.hasProcess, o.leader)

theorem distance_congr (same : after.configuration = o.configuration) : distance d after = distance d o := by
  simp only [Observation.configuration, Prod.mk.injEq] at same
  obtain ⟨committed, processes, leader⟩ := same
  rw [distance, distance, leaving_congr committed leader, committed, processes]

theorem rounds_advance (agrees : Agrees d o) (run : Rounds d rounds o after) :
    Agrees d after ∧ distance d after + rounds ≤ distance d o ∧
      after.committed.generation + 2 * distance d after ≤ o.committed.generation + 2 * distance d o := by
  induction rounds generalizing o with
  | zero =>
    cases run
    exact ⟨agrees, le_rfl, le_rfl⟩
  | succ rounds induction =>
    obtain ⟨middle, first, rest⟩ := run
    obtain ⟨still, closer, generation⟩ := round_advances agrees first
    obtain ⟨kept, total, bounded⟩ := induction still rest
    exact ⟨kept, by omega, by omega⟩

theorem reconcile_agrees (agrees : Agrees d o) : ∃ plan, reconcile d o = .ok plan ∧ plan.action = nextAction d o :=
  ⟨_, reconcile_eq_ok.mpr ⟨agrees.accepted, rfl⟩, rfl⟩

theorem voters_of_converged (planned : Planned d o .converged) (stable : o.committed.joint = none) :
    o.committed.voters = d.voters := by
  cases planned with
  | converged satisfied members =>
    rw [replicationTargets_stable stable] at members
    exact (Finset.subset_union_right.trans members).antisymm satisfied

/-- As long as the generation has room, rounds lead to `converged`. -/
theorem exists_converged (agrees : Agrees d o) (room : o.committed.generation + 2 * distance d o + 2 < 2 ^ 64) :
    ∃ rounds after, Rounds d rounds o after ∧ nextAction d after = .converged := by
  induction far : distance d o using Nat.strong_induction_on generalizing o with
  | _ far' induction =>
    by_cases finished : nextAction d o = .converged
    · exact ⟨0, o, rfl, finished⟩
    · obtain ⟨plan, planned, same⟩ := reconcile_agrees agrees
      obtain ⟨-, reasons⟩ := nextAction_planned agrees.acts
      obtain ⟨middle, executed⟩ := exists_execution agrees reasons finished (by omega)
      have round : Round d o middle := ⟨plan, planned, same ▸ executed⟩
      obtain ⟨still, closer, generation⟩ := round_advances agrees round
      obtain ⟨rounds, after, run, converged⟩ := induction _ (far ▸ closer) still (by omega) rfl
      exact ⟨rounds + 1, after, ⟨middle, round, run⟩, converged⟩

/-- Reconciliation never blocks, never comes back to a configuration, and within 513
rounds ends with the desired voters. -/
theorem reconcile_converges (d : DesiredTopology) (start : Observation) (agrees : Agrees d start)
    (room : start.committed.generation + 1028 < 2 ^ 64) : (∀ rounds o, Rounds d rounds start o → rounds ≤ 513 ∧
      ∃ plan, reconcile d o = .ok plan ∧ plan.action.isBlocked = false ∧
        (plan.action = .converged → o.committed.voters = d.voters) ∧
        (plan.action ≠ .converged → ∃ after, Executes d o plan.action after)) ∧
    (∃ rounds o plan, Rounds d rounds start o ∧ reconcile d o = .ok plan ∧ plan.action = .converged ∧
      o.committed.voters = d.voters) ∧ ∀ rounds more o later, Rounds d rounds start o → Rounds d (more + 1) o later →
      later.configuration ≠ o.configuration := by
  have near := distance_le (o := start) agrees.topology
  refine ⟨?_, ?_, ?_⟩
  · intro rounds o run
    obtain ⟨still, total, bounded⟩ := rounds_advance agrees run
    obtain ⟨plan, planned, same⟩ := reconcile_agrees still
    obtain ⟨-, reasons⟩ := nextAction_planned still.acts
    refine ⟨by omega, plan, planned, same ▸ still.acts, ?_, ?_⟩
    · intro converged
      exact voters_of_converged (converged ▸ same ▸ reasons) still.stable
    · intro unfinished
      exact exists_execution still (same ▸ reasons) unfinished (by omega)
  · obtain ⟨rounds, o, run, converged⟩ := exists_converged agrees (by omega)
    obtain ⟨still, -, -⟩ := rounds_advance agrees run
    obtain ⟨plan, planned, same⟩ := reconcile_agrees still
    obtain ⟨-, reasons⟩ := nextAction_planned still.acts
    exact ⟨rounds, o, plan, run, planned, same.trans converged,
      voters_of_converged (converged ▸ reasons) still.stable⟩
  · intro rounds more o later run further same
    obtain ⟨still, -, -⟩ := rounds_advance agrees run
    obtain ⟨-, total, -⟩ := rounds_advance still further
    rw [distance_congr same] at total
    omega

end Runs

section ScaleUp

theorem oneVoter_processes {generation : Nat} {id : NodeId} {p : ProcessObservation}
    (found : (oneVoter generation).processes.get id = some p) : p.cluster = "c1" ∧ p.ready = true ∧ p.applied = 1 ∧
      (id = "a" ∧ p.endpoint = "a:1" ∨ id = "b" ∧ p.endpoint = "b:1" ∧ p.learnerBootstrap = true) := by
  simp only [oneVoter, SortedMap.ofList, List.foldl_cons, List.foldl_nil, SortedMap.get_put,
    SortedMap.get_empty] at found
  split_ifs at found with second first
  · cases found
    exact ⟨rfl, rfl, rfl, .inr ⟨second, rfl, rfl⟩⟩
  · cases found
    exact ⟨rfl, rfl, rfl, .inl ⟨first, rfl⟩⟩

theorem agrees_oneVoter {generation : Nat} (positive : generation ≠ 0) : Agrees threeVoters (oneVoter generation) where
  topology := by decide +kernel
  cluster := rfl
  revision := rfl
  membership := {
    formatVersion := rfl
    generation := positive
    voters := ⟨"a", by simp [oneVoter, bootstrap]⟩
    votersLearners := by simp [oneVoter, bootstrap]
    votersRemoved := by simp [oneVoter, bootstrap]
    learnersRemoved := by simp [oneVoter, bootstrap]
    joint := by simp [oneVoter, bootstrap] }
  stable := rfl
  settled := rfl
  authority := Nat.one_ne_zero
  term := Nat.one_ne_zero
  configIndex := Nat.zero_le 1
  leader := by simp [oneVoter, bootstrap]
  untombstoned := by simp [oneVoter, bootstrap]
  members := by
    intro id member
    obtain rfl : id = "a" := by simpa [oneVoter, bootstrap, replicationTargets] using member
    decide +kernel
  processes := by
    intro id p found
    obtain ⟨cluster, -, -, ⟨rfl, endpoint⟩ | ⟨rfl, endpoint, -⟩⟩ := oneVoter_processes found
    · exact ⟨cluster, endpoint ▸ by decide +kernel⟩
    · exact ⟨cluster, endpoint ▸ by decide +kernel⟩
  voters := by
    intro id voter
    obtain rfl : id = "a" := by simpa [oneVoter, bootstrap] using voter
    rfl
  learners := by
    intro id p found outside removed
    obtain ⟨-, -, -, ⟨rfl, -⟩ | ⟨-, -, learner⟩⟩ := oneVoter_processes found
    · simp [oneVoter, bootstrap, replicationTargets] at outside
    · exact learner
  caughtUp := by
    intro id member p found
    obtain ⟨-, ready, applied, -⟩ := oneVoter_processes found
    obtain rfl : id = "a" := by simpa [oneVoter, bootstrap, replicationTargets] using member
    exact ⟨ready, applied.ge, fun other => absurd rfl other⟩
  matched := show 1 ≤ 128 by decide

theorem reconcile_converges_scaleUp : ∃ rounds o plan, Rounds threeVoters rounds (oneVoter 1) o ∧
    reconcile threeVoters o = .ok plan ∧ plan.action = .converged ∧ o.committed.voters = {"a", "b", "c"} := by
  obtain ⟨-, converged, -⟩ := reconcile_converges threeVoters (oneVoter 1)
    (agrees_oneVoter Nat.one_ne_zero) (by decide)
  exact converged

/-- At the last generation the planned change fails for ever, and nothing converges. -/
theorem last_generation_stuck : ¬ ∀ d start, Agrees d start →
    ∃ rounds o plan, Rounds d rounds start o ∧ reconcile d o = .ok plan ∧ plan.action = .converged := by
  intro converges
  obtain ⟨rounds, o, plan, run, planned, converged⟩ := converges threeVoters (oneVoter (2 ^ 64 - 1))
    (agrees_oneVoter (by decide))
  have stuck : reconcile threeVoters (oneVoter (2 ^ 64 - 1)) = .ok (scaleUpPlan (2 ^ 64 - 1)) := by
    decide +kernel
  cases rounds with
  | zero =>
    cases run
    rw [stuck] at planned
    cases planned
    cases converged
  | succ rounds =>
    obtain ⟨middle, ⟨first, chosen, executed⟩, -⟩ := run
    rw [stuck] at chosen
    cases chosen
    cases executed with
    | changeMembership action change index finalIndex after changes ideal carried =>
      cases changes
      obtain ⟨begun, added, -⟩ := bind_eq_ok.mp carried
      have bounded := (addLearner_eq_ok added).2.2.2.2.2.1.bounded
      exact absurd bounded (by decide)

end ScaleUp

end Neuralbase.Operator
