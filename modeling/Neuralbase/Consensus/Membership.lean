import Neuralbase.Consensus.Rpc
import Neuralbase.Library.Result
import Mathlib

namespace Neuralbase.Consensus

open Neuralbase.Library

/-! Versioned cluster membership and quorum rules (`consensus/membership.rs`).
`BTreeSet` is `Finset`; the generation is the only counter the source checks for
`u64` overflow. -/

def membershipFormatVersion : UInt8 := 1

structure JointConfig where
  oldVoters : Finset NodeId
  newVoters : Finset NodeId

-- The derived instance casts along equal sets, which does not evaluate.
instance : DecidableEq JointConfig := fun left right =>
  decidable_of_iff (left.oldVoters = right.oldVoters ∧ left.newVoters = right.newVoters)
    (by cases left; cases right; simp)

structure ClusterMembership where
  formatVersion : UInt8
  generation : Nat
  configIndex : Nat
  /-- Stable voters when `joint` is `none`; during joint consensus the
  pre-transition stable set. -/
  voters : Finset NodeId
  learners : Finset NodeId
  joint : Option JointConfig
  /-- Tombstoned ids, never reused. -/
  removed : Finset NodeId

instance : DecidableEq ClusterMembership := fun left right =>
  decidable_of_iff (left.formatVersion = right.formatVersion ∧
      left.generation = right.generation ∧ left.configIndex = right.configIndex ∧
      left.voters = right.voters ∧ left.learners = right.learners ∧ left.joint = right.joint ∧
      left.removed = right.removed)
    (by cases left; cases right; simp)

namespace ClusterMembership

def bootstrap (localId : NodeId) (peers : List NodeId) : ClusterMembership where
  formatVersion := membershipFormatVersion
  generation := 1
  configIndex := 0
  voters := insert localId peers.toFinset
  learners := ∅
  joint := none
  removed := ∅

def validate (m : ClusterMembership) : Except String Unit := do
  if m.formatVersion ≠ membershipFormatVersion then
    throw s!"unsupported membership format version {m.formatVersion}"
  if m.generation = 0 then
    throw "membership generation must be non-zero"
  if m.voters = ∅ then
    throw "membership must contain at least one voter"
  if ¬ Disjoint m.voters m.learners then
    throw "a node cannot be both voter and learner"
  if ¬ Disjoint m.voters m.removed ∨ ¬ Disjoint m.learners m.removed then
    throw "removed node cannot remain active in membership"
  match m.joint with
  | none => pure ()
  | some joint => do
      if joint.oldVoters = ∅ ∨ joint.newVoters = ∅ then
        throw "joint consensus voter sets must be non-empty"
      if joint.oldVoters ≠ m.voters then
        throw "joint old voter set must equal the preceding stable voter set"
      if ¬ Disjoint joint.oldVoters m.removed ∨ ¬ Disjoint joint.newVoters m.removed then
        throw "joint voter set contains a tombstoned node"
      if ∃ id ∈ joint.oldVoters ∪ joint.newVoters, id ∈ m.learners then
        throw "joint voter cannot simultaneously remain a learner"
      pure ()

def bootstrapLearner (localId : NodeId) (voters : List NodeId) :
    Except String ClusterMembership := do
  if voters.toFinset = ∅ then
    throw "joining learner requires at least one seed voter"
  if localId ∈ voters.toFinset then
    throw "joining learner id cannot also be a seed voter"
  let config : ClusterMembership := {
    formatVersion := membershipFormatVersion
    generation := 1
    configIndex := 0
    voters := voters.toFinset
    learners := ∅
    joint := none
    removed := ∅ }
  config.validate
  pure config

def isJoint (m : ClusterMembership) : Bool := m.joint.isSome

def isVoter (m : ClusterMembership) (id : NodeId) : Bool :=
  match m.joint with
  | some joint => decide (id ∈ joint.oldVoters ∨ id ∈ joint.newVoters)
  | none => decide (id ∈ m.voters)

def isStableVoter (m : ClusterMembership) (id : NodeId) : Bool :=
  m.joint.isNone && decide (id ∈ m.voters)

def isLearner (m : ClusterMembership) (id : NodeId) : Bool := decide (id ∈ m.learners)

def isRemoved (m : ClusterMembership) (id : NodeId) : Bool := decide (id ∈ m.removed)

def replicationTargets (m : ClusterMembership) : Finset NodeId :=
  match m.joint with
  | some joint => m.learners ∪ joint.oldVoters ∪ joint.newVoters
  | none => m.learners ∪ m.voters

def electionTargets (m : ClusterMembership) : Finset NodeId :=
  match m.joint with
  | some joint => joint.oldVoters ∪ joint.newVoters
  | none => m.voters

def majority (set : Finset NodeId) : Nat := set.card / 2 + 1

def votesIn (set votes : Finset NodeId) : Nat := (set ∩ votes).card

def hasVoteQuorum (m : ClusterMembership) (votes : Finset NodeId) : Bool :=
  match m.joint with
  | some joint =>
    decide (votesIn joint.oldVoters votes ≥ majority joint.oldVoters) &&
      decide (votesIn joint.newVoters votes ≥ majority joint.newVoters)
  | none => decide (votesIn m.voters votes ≥ majority m.voters)

/-- The source walks the whole match map and keeps the voters among its keys;
walking the voters and looking each one up collects the same set. -/
def hasMatchQuorum (m : ClusterMembership) (localId : NodeId) (matches' : NodeId → Option Nat) (index : Nat) : Bool :=
  let counted := m.electionTargets.filter fun id =>
    id = localId ∨ ∃ matched ∈ matches' id, matched ≥ index
  m.hasVoteQuorum counted

def requireStable (m : ClusterMembership) : Except String Unit := do
  m.validate
  if m.joint.isSome then
    throw "membership change already in joint consensus"
  pure ()

def nextGeneration (m : ClusterMembership) : Except String Nat :=
  if m.generation + 1 < 2 ^ 64 then .ok (m.generation + 1)
  else .error "membership generation overflow"

def addLearner (m : ClusterMembership) (id : NodeId) (index : Nat) :
    Except String ClusterMembership := do
  m.requireStable
  if m.isRemoved id then
    throw s!"node id {id} was removed and cannot be reused; use a new incarnation id"
  if id ∈ m.voters ∨ id ∈ m.learners then
    throw s!"node id {id} is already present in membership"
  let generation ← m.nextGeneration
  let next := { m with generation, configIndex := index, learners := insert id m.learners }
  next.validate
  pure next

def beginPromotion (m : ClusterMembership) (id : NodeId) (index : Nat) :
    Except String ClusterMembership := do
  m.requireStable
  if id ∉ m.learners then
    throw s!"node id {id} is not a learner"
  let generation ← m.nextGeneration
  let next := { m with
    generation, configIndex := index
    learners := m.learners.erase id
    joint := some { oldVoters := m.voters, newVoters := insert id m.voters } }
  next.validate
  pure next

def beginRemoval (m : ClusterMembership) (id : NodeId) (index : Nat) :
    Except String ClusterMembership := do
  m.requireStable
  if id ∈ m.learners then
    let generation ← m.nextGeneration
    let next := { m with
      generation, configIndex := index
      learners := m.learners.erase id, removed := insert id m.removed }
    next.validate
    return next
  if id ∉ m.voters then
    throw s!"node id {id} is not an active member"
  if m.voters.card ≤ 1 then
    throw "cannot remove the last voter"
  let generation ← m.nextGeneration
  let next := { m with
    generation, configIndex := index
    joint := some { oldVoters := m.voters, newVoters := m.voters.erase id } }
  next.validate
  pure next

def finalizeJoint (m : ClusterMembership) (index : Nat) : Except String ClusterMembership :=
  match m.joint with
  | none => .error "cannot finalize membership: not in joint consensus"
  | some joint => do
      let generation ← m.nextGeneration
      let next := { m with
        generation, configIndex := index
        voters := joint.newVoters
        removed := m.removed ∪ (joint.oldVoters \ joint.newVoters)
        joint := none }
      next.validate
      pure next

end ClusterMembership

/-- `transition_membership` in `consensus/raft.rs`. -/
def transitionMembership (base : ClusterMembership) (change : MembershipChange) (index : Nat) :
    Except String ClusterMembership :=
  match change with
  | .addNode id | .addLearner id => base.addLearner id index
  | .promoteLearner id => base.beginPromotion id index
  | .removeNode id => base.beginRemoval id index
  | .finalizeJoint => base.finalizeJoint index

end Neuralbase.Consensus
