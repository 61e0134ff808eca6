import Neuralbase.Consensus.Membership.Transitions
import Neuralbase.Library.Ascending
import Neuralbase.Library.SortedMap
import Neuralbase.Library.Utf8
import Mathlib

namespace Neuralbase.Operator

open Neuralbase.Library Neuralbase.Consensus

/-! The operator's reconciliation (`operator.rs`): one next action that brings an
observed cluster closer to a desired topology.  `BTreeMap` is `SortedMap`. -/

def operatorVersion : UInt8 := 1
def maxOperatorNodes : Nat := 128

structure DesiredTopology where
  version : UInt8
  cluster : String
  revision : Nat
  /-- The inventory: the stable endpoint of every identity. -/
  endpoints : SortedMap NodeId String
  voters : Finset NodeId
  minimumVoters : Nat

structure ProcessObservation where
  cluster : String
  endpoint : String
  learnerBootstrap : Bool
  ready : Bool
  applied : Nat
deriving DecidableEq

structure Observation where
  cluster : String
  acceptedRevision : Nat
  leader : NodeId
  term : Nat
  /-- Committed in the current term and durably applied by the leader. -/
  authorityIndex : Nat
  committed : ClusterMembership
  transitionPending : Bool
  processes : SortedMap NodeId ProcessObservation
  matched : SortedMap NodeId Nat

inductive Action where
  | converged
  | blocked (reason : String)
  | createLearner (id : NodeId)
  | restartMember (id : NodeId)
  | addLearner (id : NodeId)
  | promoteLearner (id : NodeId)
  | transferLeadership (id : NodeId)
  | removeMember (id : NodeId)
  | stopRemoved (id : NodeId)
deriving DecidableEq

def Action.membershipChange : Action → Option MembershipChange
  | .addLearner id => some (.addLearner id)
  | .promoteLearner id => some (.promoteLearner id)
  | .removeMember id => some (.removeNode id)
  | _ => none

structure Plan where
  version : UInt8
  cluster : String
  revision : Nat
  leader : NodeId
  term : Nat
  membershipGeneration : Nat
  action : Action
deriving DecidableEq

/-- ASCII letters, digits, and `-_.`. -/
def isTokenByte (byte : UInt8) : Bool :=
  (48 ≤ byte && byte ≤ 57) || (65 ≤ byte && byte ≤ 90) || (97 ≤ byte && byte ≤ 122) ||
    byte = 45 || byte = 95 || byte = 46

def validToken (text : String) : Bool :=
  utf8 text ≠ [] && (utf8 text).length ≤ 128 && (utf8 text).all isTokenByte

def isSpaceOrControl (byte : UInt8) : Bool := byte ≤ 32 || byte = 127

namespace DesiredTopology

def validEndpoint (id : NodeId) (address : String) : Bool :=
  validToken id && utf8 address ≠ [] && (utf8 address).length ≤ 253 &&
    !(utf8 address).any isSpaceOrControl

/-- `seen` holds the addresses of the entries before. -/
def validateEndpoints (seen : List String) : List (NodeId × String) → Except String Unit
  | [] => .ok ()
  | (id, address) :: rest =>
    if !validEndpoint id address || decide (address ∈ seen) then
      .error "invalid/duplicate stable identity or endpoint"
    else validateEndpoints (address :: seen) rest

def validate (d : DesiredTopology) : Except String Unit := do
  if d.version ≠ operatorVersion ∨ d.revision = 0 ∨ !validToken d.cluster then
    throw "invalid operator version, incarnation or revision"
  if d.endpoints.entries = [] ∨ maxOperatorNodes < d.endpoints.entries.length then
    throw "inventory must contain 1..=128 nodes"
  if d.minimumVoters = 0 ∨ d.voters.card < d.minimumVoters then
    throw "desired topology violates voter floor"
  validateEndpoints [] d.endpoints.entries
  if ∃ id ∈ d.voters, d.endpoints.get id = none then
    throw "desired voter missing from inventory"
  pure ()

end DesiredTopology

namespace Observation

variable (o : Observation)

def hasProcess (id : NodeId) : Bool := (o.processes.get id).isSome

/-- `o.matched.get(id).copied().unwrap_or(0)`. -/
def matchedAt (id : NodeId) : Nat := (o.matched.get id).getD 0

def confirmed (p : ProcessObservation) : Bool := p.ready && decide (o.authorityIndex ≤ p.applied)

def ready : Finset NodeId :=
  ((o.processes.entries.filter fun entry => o.confirmed entry.2).map Prod.fst).toFinset

end Observation

section Reconcile

variable (d : DesiredTopology) (o : Observation)

def conflictingProcess : Bool :=
  o.processes.entries.any fun entry =>
    decide (entry.2.cluster ≠ d.cluster) || decide (d.endpoints.get entry.1 ≠ some entry.2.endpoint)

def unmanagedMember : Prop := ∃ id ∈ o.committed.replicationTargets, d.endpoints.get id = none

instance : Decidable (unmanagedMember d o) :=
  inferInstanceAs (Decidable (∃ id ∈ o.committed.replicationTargets, d.endpoints.get id = none))

def admitVoter (id : NodeId) : Action :=
  match o.processes.get id with
  | none => if id ∈ o.committed.learners then .restartMember id else .createLearner id
  | some p =>
    if id ∉ o.committed.learners then
      if !p.learnerBootstrap then .blocked "unadmitted process did not start non-voting"
      else .addLearner id
    else if id ∉ o.ready ∨ o.matchedAt id < o.authorityIndex then
      .blocked "learner has not confirmed snapshot/log catch-up"
    else
      let next := insert id o.committed.voters
      if (next ∩ o.ready).card < next.card / 2 + 1 then .blocked "promotion lacks new voter quorum"
      else .promoteLearner id

def retire (id : NodeId) : Action :=
  if id ∈ o.committed.voters then
    let next := o.committed.voters.filter fun voter => voter ≠ id
    if next.card < d.minimumVoters ∨ (next ∩ o.ready).card < next.card / 2 + 1 then
      .blocked "removal violates voter floor or surviving quorum"
    else if id = o.leader then
      match (ascending (next ∩ o.ready)).find? fun voter =>
          decide (o.authorityIndex ≤ o.matchedAt voter) with
      | some target => .transferLeadership target
      | none => .blocked "no caught-up surviving voter for transfer"
    else .removeMember id
  else .removeMember id

def withdrawn (id : NodeId) : Bool :=
  decide (id ∉ d.voters) && decide (id ∉ o.committed.replicationTargets) &&
    decide (id ∉ o.committed.removed)

/-- The end of `reconcile`: the membership is as desired. -/
def cleanUp : Action :=
  match (ascending o.committed.removed).find? o.hasProcess with
  | some id => .stopRemoved id
  | none =>
    match o.processes.entries.find? fun entry => withdrawn d o entry.1 with
    | some (id, p) =>
      if !p.learnerBootstrap then .blocked "unmanaged bootstrap process outside desired topology"
      else .addLearner id
    | none =>
      if ¬ d.voters ⊆ o.ready then
        .blocked "desired voters have not all confirmed readiness and apply"
      else .converged

/-- The changes `reconcile` makes once the observation gives it authority to act. -/
def nextChange : Action :=
  match (ascending (d.voters ∩ o.committed.voters)).find? fun id => !o.hasProcess id with
  | some id => .restartMember id
  | none =>
    match (ascending (d.voters \ o.committed.voters)).head? with
    | some id => admitVoter o id
    | none =>
      match (ascending (o.committed.replicationTargets \ d.voters)).head? with
      | some id => retire d o id
      | none => cleanUp d o

def nextAction : Action :=
  if o.authorityIndex = 0 ∨ o.term = 0 ∨ o.committed.isVoter o.leader = false ∨
      o.authorityIndex < o.committed.configIndex then
    .blocked "current leader quorum/apply authority unavailable"
  else if o.transitionPending || o.committed.isJoint then
    .blocked "Raft must finish the outstanding membership transition"
  else if conflictingProcess d o then
    .blocked "process incarnation or endpoint conflicts with inventory"
  else if unmanagedMember d o then .blocked "manual membership includes unmanaged identity"
  else if ¬ Disjoint d.voters o.committed.removed then
    .blocked "desired topology reuses a tombstoned incarnation"
  else if !o.committed.hasVoteQuorum o.ready then
    .blocked "insufficient confirmed applied voters for current quorum"
  else nextChange d o

def reconcile : Except String Plan := do
  d.validate
  o.committed.validate
  if o.cluster ≠ d.cluster ∨ o.acceptedRevision ≠ d.revision then
    throw "stale cluster incarnation or desired revision"
  if maxOperatorNodes < o.processes.entries.length ∨ maxOperatorNodes < o.matched.entries.length ∨
      maxOperatorNodes < o.committed.replicationTargets.card then
    throw "observation exceeds operator bounds"
  pure {
    version := operatorVersion
    cluster := d.cluster
    revision := d.revision
    leader := o.leader
    term := o.term
    membershipGeneration := o.committed.generation
    action := nextAction d o }

end Reconcile

end Neuralbase.Operator
