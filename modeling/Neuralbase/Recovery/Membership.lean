import Neuralbase.Backup
import Neuralbase.Consensus.Membership.History

namespace Neuralbase

open Neuralbase.Library Neuralbase.Consensus

/-! The membership of a recovered cluster, as a restore (`restore.rs`) and a
point-in-time recovery (`pitr_replay.rs`) each build it. -/

/-- `char::is_whitespace`: the Unicode property `White_Space`. -/
def isWhitespace (c : Char) : Bool :=
  (9 ≤ c.toNat && c.toNat ≤ 13) || c.toNat = 0x20 || c.toNat = 0x85 || c.toNat = 0xA0 ||
    c.toNat = 0x1680 || (0x2000 ≤ c.toNat && c.toNat ≤ 0x200A) || c.toNat = 0x2028 ||
    c.toNat = 0x2029 || c.toNat = 0x202F || c.toNat = 0x205F || c.toNat = 0x3000

/-- `id.trim().is_empty()`. -/
def isBlank (id : NodeId) : Bool := id.toList.all isWhitespace

namespace Restore

/-- The share of `RestoreError` that the builder returns. -/
inductive BuildError where
  | emptyRecoveryNodeId
  | reusedRecoveryNodeId (id : NodeId)
  | membershipGenerationOverflow
  | invalidRecoveryMembership (error : String)
deriving DecidableEq

open BuildError

def buildRecoveryMembership (backup : NeuralBaseBackup) (recoveryNodeId : NodeId) :
    Except BuildError ClusterMembership := do
  if isBlank recoveryNodeId then throw emptyRecoveryNodeId
  let historical := backup.membership.replicationTargets ∪ backup.membership.removed
  if recoveryNodeId ∈ historical then throw (reusedRecoveryNodeId recoveryNodeId)
  if ¬ backup.membership.generation + 1 < 2 ^ 64 then throw membershipGenerationOverflow
  let membership : ClusterMembership := {
    formatVersion := membershipFormatVersion
    generation := backup.membership.generation + 1
    configIndex := backup.manifest.metadata.lastIncludedIndex
    voters := {recoveryNodeId}
    learners := ∅
    joint := none
    removed := historical }
  membership.validate.mapError invalidRecoveryMembership
  pure membership

end Restore

namespace PitrReplay

/-- The share of `PitrReplayError` that the builder returns. -/
inductive BuildError where
  | emptyRecoveryNodeId
  | reusedRecoveryNodeId (id : NodeId)
  | membershipGenerationOverflow
  | invalidRecoveryMembership (error : String)
deriving DecidableEq

open BuildError

def buildRecoveryMembership (source : ClusterMembership) (targetIndex : Nat)
    (recoveryNodeId : NodeId) : Except BuildError ClusterMembership := do
  if isBlank recoveryNodeId then throw emptyRecoveryNodeId
  let historical := source.replicationTargets ∪ source.removed
  if recoveryNodeId ∈ historical then throw (reusedRecoveryNodeId recoveryNodeId)
  if ¬ source.generation + 1 < 2 ^ 64 then throw membershipGenerationOverflow
  let membership : ClusterMembership := {
    formatVersion := membershipFormatVersion
    generation := source.generation + 1
    configIndex := targetIndex
    voters := {recoveryNodeId}
    learners := ∅
    joint := none
    removed := historical }
  membership.validate.mapError invalidRecoveryMembership
  pure membership

def BuildError.toRestore : BuildError → Restore.BuildError
  | .emptyRecoveryNodeId => .emptyRecoveryNodeId
  | .reusedRecoveryNodeId id => .reusedRecoveryNodeId id
  | .membershipGenerationOverflow => .membershipGenerationOverflow
  | .invalidRecoveryMembership error => .invalidRecoveryMembership error

end PitrReplay

theorem Restore.buildRecoveryMembership_eq (backup : NeuralBaseBackup) (id : NodeId) :
    Restore.buildRecoveryMembership backup id = (PitrReplay.buildRecoveryMembership backup.membership
        backup.manifest.metadata.lastIncludedIndex id).mapError PitrReplay.BuildError.toRestore := by
  unfold Restore.buildRecoveryMembership PitrReplay.buildRecoveryMembership
  dsimp only
  generalize ClusterMembership.validate _ = checked
  cases checked with
  | error reason => split_ifs <;> rfl
  | ok accepted => split_ifs <;> rfl

namespace PitrReplay

variable {source recovery : ClusterMembership} {targetIndex : Nat} {id : NodeId}

structure Fenced (source : ClusterMembership) (targetIndex : Nat) (id : NodeId)
    (recovery : ClusterMembership) : Prop where
  valid : recovery.Valid
  voters : recovery.voters = {id}
  learners : recovery.learners = ∅
  joint : recovery.joint = none
  removed : recovery.removed = source.seen
  generation : recovery.generation = source.generation + 1
  configIndex : recovery.configIndex = targetIndex

theorem historical_eq_seen (valid : source.Valid) : source.replicationTargets ∪ source.removed = source.seen := by
  ext other
  rw [ClusterMembership.mem_seen, Finset.mem_union, ClusterMembership.replicationTargets]
  cases present : source.joint with
  | none =>
    simp only [Finset.mem_union, reduceCtorEq, false_and, exists_false, or_false]
    tauto
  | some joint =>
    simp only [Finset.mem_union, Option.some.injEq, exists_eq_left', ← (valid.joint joint present).1]
    tauto

theorem fenced_fresh (fresh : id ∉ source.seen) :
    Fenced source targetIndex id {
      formatVersion := membershipFormatVersion
      generation := source.generation + 1
      configIndex := targetIndex
      voters := {id}
      learners := ∅
      joint := none
      removed := source.seen } where
  valid := {
    formatVersion := rfl
    generation := Nat.succ_ne_zero _
    voters := Finset.singleton_nonempty id
    votersLearners := Finset.disjoint_empty_right _
    votersRemoved := Finset.disjoint_singleton_left.mpr fresh
    learnersRemoved := Finset.disjoint_empty_left _
    joint := by simp }
  voters := rfl
  learners := rfl
  joint := rfl
  removed := rfl
  generation := rfl
  configIndex := rfl

theorem buildRecoveryMembership_eq_ok (valid : source.Valid) :
    buildRecoveryMembership source targetIndex id = .ok recovery ↔
      isBlank id = false ∧ id ∉ source.seen ∧ source.generation + 1 < 2 ^ 64 ∧
        Fenced source targetIndex id recovery := by
  unfold buildRecoveryMembership
  simp only [guard_eq_ok, check_eq_ok, mapError_eq_ok, ClusterMembership.validate_eq_ok, pure_eq_ok,
    historical_eq_seen valid, not_not, Bool.not_eq_true]
  constructor
  · rintro ⟨named, fresh, bounded, accepted, rfl⟩
    exact ⟨named, fresh, bounded, accepted, rfl, rfl, rfl, rfl, rfl, rfl⟩
  · rintro ⟨named, fresh, bounded, fenced⟩
    obtain ⟨version, generation, configIndex, voters, learners, joint, removed⟩ := recovery
    obtain ⟨accepted, rfl, rfl, rfl, rfl, rfl, rfl⟩ := fenced
    obtain rfl := accepted.formatVersion
    exact ⟨named, fresh, bounded, accepted, rfl⟩

end PitrReplay

theorem removed_excluded {m : ClusterMembership} (valid : m.Valid) {id : NodeId} (removed : id ∈ m.removed) :
    id ∉ m.voters ∧ id ∉ m.learners ∧ m.isVoter id = false ∧ id ∉ m.replicationTargets := by
  have voter : id ∉ m.voters := fun inside => Finset.disjoint_left.mp valid.votersRemoved inside removed
  have learner : id ∉ m.learners := fun inside =>
    Finset.disjoint_left.mp valid.learnersRemoved inside removed
  refine ⟨voter, learner, valid.not_voter (.inr removed), ?_⟩
  unfold ClusterMembership.replicationTargets
  cases present : m.joint with
  | none => simp [voter, learner]
  | some joint =>
    obtain ⟨old, -, new, -⟩ := valid.joint joint present
    have absent : id ∉ joint.newVoters := fun inside => Finset.disjoint_left.mp new inside removed
    simp [old, voter, learner, absent]

/-- Recovery fences the old cluster: whatever id took part in the source's history,
no membership that grows out of the recovered one ever admits it. -/
theorem recovery_fences_source (genesis source : ClusterMembership) (targetIndex : Nat) (id : NodeId)
    (valid : genesis.validate = .ok ()) (history : MembershipReach genesis source) :
    (∀ backup : NeuralBaseBackup, backup.membership = source →
      backup.manifest.metadata.lastIncludedIndex = targetIndex → Restore.buildRecoveryMembership backup id =
        (PitrReplay.buildRecoveryMembership source targetIndex id).mapError PitrReplay.BuildError.toRestore) ∧
    ((∃ recovery, PitrReplay.buildRecoveryMembership source targetIndex id = .ok recovery) ↔
      isBlank id = false ∧ id ∉ source.seen ∧ source.generation + 1 < 2 ^ 64) ∧
    ∀ recovery, PitrReplay.buildRecoveryMembership source targetIndex id = .ok recovery →
      recovery.voters = {id} ∧ recovery.learners = ∅ ∧ recovery.joint = none ∧
      source.generation < recovery.generation ∧ recovery.validate = .ok () ∧
      ∀ earlier, MembershipReach genesis earlier → MembershipReach earlier source →
        ∀ old ∈ earlier.seen, old ∈ recovery.removed ∧ ∀ later, MembershipReach recovery later →
            old ∉ later.voters ∧ old ∉ later.learners ∧ later.isVoter old = false ∧ old ∉ later.replicationTargets := by
  have sourceValid := MembershipReach.valid (ClusterMembership.validate_eq_ok.mp valid) history
  refine ⟨?_, ?_, ?_⟩
  · rintro backup rfl rfl
    exact Restore.buildRecoveryMembership_eq backup id
  · constructor
    · rintro ⟨recovery, built⟩
      obtain ⟨named, fresh, bounded, -⟩ := (PitrReplay.buildRecoveryMembership_eq_ok sourceValid).mp built
      exact ⟨named, fresh, bounded⟩
    · rintro ⟨named, fresh, bounded⟩
      exact ⟨_, (PitrReplay.buildRecoveryMembership_eq_ok sourceValid).mpr
        ⟨named, fresh, bounded, PitrReplay.fenced_fresh fresh⟩⟩
  · intro recovery built
    obtain ⟨-, -, -, fenced⟩ := (PitrReplay.buildRecoveryMembership_eq_ok sourceValid).mp built
    refine ⟨fenced.voters, fenced.learners, fenced.joint, by rw [fenced.generation]; omega,
      ClusterMembership.validate_eq_ok.mpr fenced.valid, ?_⟩
    intro earlier before after old seen
    have earlierValid := MembershipReach.valid (ClusterMembership.validate_eq_ok.mp valid) before
    have tombstone : old ∈ recovery.removed :=
      fenced.removed ▸ (MembershipReach.grows earlierValid after).2 seen
    refine ⟨tombstone, fun later reached => ?_⟩
    have laterValid := MembershipReach.valid fenced.valid reached
    exact removed_excluded laterValid ((MembershipReach.grows fenced.valid reached).1 tombstone)

/-- `n3` was removed and `n4` is a learner of the source. -/
theorem recovery_fences_source_three : ∃ source recovery, MembershipReach (.bootstrap "n1" ["n2", "n3"]) source ∧
      source.removed = {"n3"} ∧ source.learners = {"n4"} ∧
      PitrReplay.buildRecoveryMembership source 9 "r1" = .ok recovery ∧ recovery.voters = {"r1"} ∧
      ∀ old ∈ ["n1", "n3", "n4"], old ∈ recovery.removed ∧ ∀ later, MembershipReach recovery later →
        old ∉ later.voters ∧ old ∉ later.learners := by
  let three := ClusterMembership.bootstrap "n1" ["n2", "n3"]
  let removing := { three with generation := 2, configIndex := 1, joint := some ⟨{"n1", "n2", "n3"}, {"n1", "n2"}⟩ }
  let two := { three with generation := 3, configIndex := 2, voters := {"n1", "n2"}, removed := {"n3"} }
  let source := { two with generation := 4, configIndex := 3, learners := {"n4"} }
  have first : MembershipStep three 1 removing := .beginRemoval "n3" (by decide)
  have second : MembershipStep removing 2 two := .finalizeJoint (by decide)
  have third : MembershipStep two 3 source := .addLearner "n4" (by decide)
  have reached : MembershipReach three source :=
    ((Relation.ReflTransGen.single ⟨1, first⟩).tail ⟨2, second⟩).tail ⟨3, third⟩
  obtain ⟨-, built, fences⟩ := recovery_fences_source three source 9 "r1" (by decide) reached
  obtain ⟨recovery, built⟩ := built.mpr ⟨by decide, by decide, by decide⟩
  obtain ⟨voters, _, _, _, _, fenced⟩ := fences recovery built
  refine ⟨source, recovery, reached, rfl, rfl, built, voters, fun old among => ?_⟩
  have seen : ∀ old ∈ ["n1", "n3", "n4"], old ∈ source.seen := by decide
  obtain ⟨removed, never⟩ := fenced source reached .refl old (seen old among)
  exact ⟨removed, fun later after => ⟨(never later after).1, (never later after).2.1⟩⟩

end Neuralbase
