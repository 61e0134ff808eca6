import Neuralbase.Consensus.Schedule
import Neuralbase.Pitr.Archive

namespace Neuralbase.Pitr

open Neuralbase.Library
open Neuralbase.Consensus (Bytes LogEntry MembershipChange startsWith membershipChangeTag encodeMembershipChange
  plainCodec)
open Neuralbase.Replicated Neuralbase.Storage

/-! Which committed commands can be archived, and whether the archive takes them for what
the replicated state machine takes them for. -/

def onlineBackupBarrier : Bytes := utf8 "NBBK-ONLINE" ++ [1]

/-- What the components of the server append to the Raft log.  Read barriers, operator
observations and the readiness of a new leader all use the one readiness barrier. -/
inductive Appendable (codec : Consensus.Codec) : Bytes → Prop
  | sql {mutation : ReplicatedMutation} {command : Bytes} :
      (∀ commitTs ∈ mutation.commitTs, commitTs < 2 ^ 64) → mutation.encode = .ok command →
      Appendable codec command
  | identity {mutation : ReplicatedIdentityMutation} {command : Bytes} :
      mutation.encode = .ok command → Appendable codec command
  | membership (change : MembershipChange) : Appendable codec (encodeMembershipChange codec change)
  | leaderNoOp : Appendable codec []
  | readinessBarrier : Appendable codec sqlReadinessBarrier
  | onlineBackup : Appendable codec onlineBackupBarrier

def RecoveryRecordKind.plan (schemas : SchemaCodec) (faults : Faults) (db : Database) (entry : LogEntry)
    (previous : ReplicatedApplyState) : RecoveryRecordKind → Except ReplicatedSqlApplyError Plan
  | sql => do
      let mutation ← (ReplicatedMutation.decode entry.command).mapError .codec
      applySql schemas faults db entry.index mutation previous
  | identity => do
      let mutation ← (ReplicatedIdentityMutation.decode entry.command).mapError .identityCodec
      applyIdentity faults db entry.index mutation previous
  | membership => pure (advanceControlApply entry.index previous)
  | control => pure (advanceControlApply entry.index previous)

section Agreement

variable {codec : Consensus.Codec} {schemas : SchemaCodec} {faults : Faults} {db : Database}
  {entry : LogEntry} {previous : ReplicatedApplyState} {command : Bytes}

theorem not_identity_of_sql (mutation : isReplicatedMutation command = true) :
    isReplicatedIdentityMutation command = false := by
  by_contra identity
  rw [Bool.not_eq_false, isReplicatedIdentityMutation, List.isPrefixOf_iff_prefix] at identity
  rw [isReplicatedMutation, List.isPrefixOf_iff_prefix] at mutation
  have same := List.prefix_of_prefix_length_le mutation identity (by decide)
  exact absurd same (by decide)

theorem tag_encodeMembershipChange (codec : Consensus.Codec) (change : MembershipChange) :
    isReplicatedMutation (encodeMembershipChange codec change) = false ∧
    isReplicatedIdentityMutation (encodeMembershipChange codec change) = false ∧
    startsWith (encodeMembershipChange codec change) membershipChangeTag = true := by
  refine ⟨rfl, rfl, ?_⟩
  simp [startsWith, encodeMembershipChange]

theorem decodeMembershipPayload_encode (codec : Consensus.Codec) (change : MembershipChange) :
    decodeMembershipPayload codec (encodeMembershipChange codec change) = .ok change := by
  have tagged := (tag_encodeMembershipChange codec change).2.2
  rw [decodeMembershipPayload]
  refine guard_eq_ok.mpr ⟨not_not.mpr tagged, bind_eq_ok.mpr ⟨change, ?_, ?_⟩⟩
  · rw [encodeMembershipChange, List.drop_left, codec.changeFromSlice_toVec]
    rfl
  · exact guard_eq_ok.mpr ⟨not_not.mpr rfl, rfl⟩

theorem classify_of_appendable (appendable : Appendable codec command) (known : command ≠ onlineBackupBarrier) :
    ∃ kind, classify codec command = .ok kind := by
  cases appendable with
  | sql fits encoded =>
    refine ⟨.sql, ?_⟩
    rw [classify, if_pos (ReplicatedMutation.isReplicatedMutation_encode encoded),
      ReplicatedMutation.decode_encode fits encoded]
    rfl
  | identity encoded =>
    have marked := ReplicatedIdentityMutation.isReplicatedIdentityMutation_encode encoded
    have plain : ¬ isReplicatedMutation command = true := by
      intro mutation
      rw [not_identity_of_sql mutation] at marked
      cases marked
    refine ⟨.identity, ?_⟩
    rw [classify, if_neg plain, if_pos marked, ReplicatedIdentityMutation.decode_encode encoded]
    rfl
  | membership change =>
    obtain ⟨plain, anonymous, tagged⟩ := tag_encodeMembershipChange codec change
    refine ⟨.membership, ?_⟩
    rw [classify, if_neg (by simp [plain]), if_neg (by simp [anonymous]), if_pos tagged,
      decodeMembershipPayload_encode]
    rfl
  | leaderNoOp => exact ⟨.control, rfl⟩
  | readinessBarrier => exact ⟨.control, rfl⟩
  | onlineBackup => exact absurd rfl known

inductive Classified (codec : Consensus.Codec) (command : Bytes) : RecoveryRecordKind → Prop
  | sql {mutation : ReplicatedMutation} : isReplicatedMutation command = true →
      ReplicatedMutation.decode command = .ok mutation → Classified codec command .sql
  | identity {mutation : ReplicatedIdentityMutation} : isReplicatedMutation command = false →
      isReplicatedIdentityMutation command = true →
      ReplicatedIdentityMutation.decode command = .ok mutation → Classified codec command .identity
  | membership {change : MembershipChange} : isReplicatedMutation command = false →
      isReplicatedIdentityMutation command = false →
      decodeMembershipPayload codec command = .ok change → Classified codec command .membership
  | control : isReplicatedMutation command = false → isReplicatedIdentityMutation command = false →
      command = [] ∨ command = sqlReadinessBarrier → Classified codec command .control

theorem classify_eq_ok {kind : RecoveryRecordKind} (classified : classify codec command = .ok kind) :
    Classified codec command kind := by
  unfold classify at classified
  split_ifs at classified with mutation identity tagged control
  · obtain ⟨_, decoded, same⟩ := bind_eq_ok.mp classified
    cases pure_eq_ok.mp same
    exact .sql mutation (mapError_eq_ok.mp decoded)
  · obtain ⟨_, decoded, same⟩ := bind_eq_ok.mp classified
    cases pure_eq_ok.mp same
    exact .identity (Bool.not_eq_true _ ▸ mutation) identity (mapError_eq_ok.mp decoded)
  · obtain ⟨_, decoded, same⟩ := bind_eq_ok.mp classified
    cases pure_eq_ok.mp same
    exact .membership (Bool.not_eq_true _ ▸ mutation) (Bool.not_eq_true _ ▸ identity) decoded
  · cases pure_eq_ok.mp classified
    exact .control (Bool.not_eq_true _ ▸ mutation) (Bool.not_eq_true _ ▸ identity) control

theorem validatePayload_of_classified {record : RecoveryRecord}
    (classified : Classified codec record.payload record.kind) : record.validatePayload codec = .ok () := by
  obtain ⟨index, term, kind, payload⟩ := record
  cases classified with
  | sql marked decoded =>
    exact guard_eq_ok.mpr ⟨not_not.mpr marked, bind_eq_ok.mpr ⟨_, mapError_eq_ok.mpr decoded, rfl⟩⟩
  | identity _ marked decoded =>
    exact guard_eq_ok.mpr ⟨not_not.mpr marked, bind_eq_ok.mpr ⟨_, mapError_eq_ok.mpr decoded, rfl⟩⟩
  | membership _ _ decoded => exact bind_eq_ok.mpr ⟨_, decoded, rfl⟩
  | control _ _ known => exact if_neg fun ⟨nonempty, other⟩ => known.elim nonempty other

theorem planEntry_of_classified {kind : RecoveryRecordKind} (classified : Classified codec entry.command kind)
    (loaded : loadState faults db = .ok previous) (fresh : previous.lastAppliedIndex < entry.index) :
    planEntry schemas faults db entry = kind.plan schemas faults db entry previous := by
  rw [planEntry, loaded]
  show (if entry.index ≤ previous.lastAppliedIndex then _ else _) = _
  rw [if_neg (not_le.mpr fresh)]
  cases classified with
  | sql marked => rw [not_identity_of_sql marked, marked]; rfl
  | identity _ marked => rw [marked]; rfl
  | membership plain anonymous => rw [plain, anonymous]; rfl
  | control plain anonymous => rw [plain, anonymous]; rfl

/-- The record is made, gives the entry back, is valid, and the state machine takes the entry for
what it is archived as. -/
def Archivable (codec : Consensus.Codec) (entry : LogEntry) : Prop :=
  ∃ record, RecoveryRecord.fromLogEntry codec entry = .ok record ∧ record.toLogEntry = entry ∧
    record.validate codec = .ok () ∧ ∀ schemas faults db previous, loadState faults db = .ok previous →
      previous.lastAppliedIndex < entry.index →
      planEntry schemas faults db entry = record.kind.plan schemas faults db entry previous

theorem archivable_of_classify {kind : RecoveryRecordKind} (index : entry.index ≠ 0) (term : entry.term ≠ 0)
    (short : entry.command.length ≤ maxArchivePayloadBytes) (classified : classify codec entry.command = .ok kind) :
    Archivable codec entry := by
  refine ⟨{ index := entry.index, term := entry.term, kind, payload := entry.command }, ?_, rfl, ?_, ?_⟩
  · refine guard_eq_ok.mpr ⟨not_or.mpr ⟨index, term⟩, guard_eq_ok.mpr ⟨not_lt.mpr short, ?_⟩⟩
    exact bind_eq_ok.mpr ⟨kind, classified, rfl⟩
  · refine guard_eq_ok.mpr ⟨not_or.mpr ⟨index, term⟩, guard_eq_ok.mpr ⟨not_lt.mpr short, ?_⟩⟩
    exact validatePayload_of_classified (classify_eq_ok classified)
  · exact fun schemas faults db previous => planEntry_of_classified (classify_eq_ok classified)

theorem classify_onlineBackupBarrier : classify codec onlineBackupBarrier = .error .unsupportedCommittedCommand := by
  rfl

/-- A command that the server appends can be archived exactly if it is not the marker of an online
backup and not longer than a segment can be. -/
theorem committed_command_archivable (appendable : Appendable codec entry.command)
    (index : entry.index ≠ 0) (term : entry.term ≠ 0) : Archivable codec entry ↔
      entry.command ≠ onlineBackupBarrier ∧ entry.command.length ≤ maxArchivePayloadBytes := by
  constructor
  · rintro ⟨record, made, -⟩
    obtain ⟨-, made⟩ := guard_eq_ok.mp made
    obtain ⟨short, made⟩ := guard_eq_ok.mp made
    obtain ⟨kind, classified, -⟩ := bind_eq_ok.mp made
    refine ⟨fun marker => ?_, not_lt.mp short⟩
    rw [marker, classify_onlineBackupBarrier] at classified
    cases classified
  · rintro ⟨known, short⟩
    obtain ⟨kind, classified⟩ := classify_of_appendable appendable known
    exact archivable_of_classify index term short classified

def dropEntry : LogEntry :=
  { index := 1, term := 1
    command := mutationMagic ++ [replicatedMutationVersion, 2, 0, 0, 0, 1, 116, 0, 0, 0, 0] }

theorem committed_command_archivable_drop : Archivable plainCodec dropEntry := by
  have appendable : Appendable plainCodec dropEntry.command :=
    @Appendable.sql plainCodec (.dropTable "t" 0) _ (by simp [ReplicatedMutation.commitTs]) (by decide +kernel)
  exact (committed_command_archivable appendable (by decide) (by decide)).mpr ⟨by decide, by decide⟩

/-- The state machine takes the marker of an online backup for a control entry; the archive
refuses it. -/
theorem online_backup_marker_unarchivable :
    Appendable plainCodec onlineBackupBarrier ∧
    RecoveryRecord.fromLogEntry plainCodec { index := 1, term := 1, command := onlineBackupBarrier } =
      .error .unsupportedCommittedCommand ∧
    ∀ schemas faults db previous, loadState faults db = .ok previous → previous.lastAppliedIndex < 1 →
      planEntry schemas faults db { index := 1, term := 1, command := onlineBackupBarrier } =
        .ok (advanceControlApply 1 previous) := by
  refine ⟨.onlineBackup, by decide +kernel, ?_⟩
  intro schemas faults db previous loaded fresh
  rw [planEntry, loaded]
  show (if 1 ≤ previous.lastAppliedIndex then _ else _) = _
  rw [if_neg (not_le.mpr fresh)]
  rfl

end Agreement

end Neuralbase.Pitr
