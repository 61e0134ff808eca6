import Neuralbase.Consensus.Membership.Transitions
import Neuralbase.Library.BigEndian

namespace Neuralbase.Consensus

open Neuralbase.Library

/-! Command payloads (`consensus/raft.rs`, `consensus/operator_control.rs`) and
the snapshot envelope (`consensus/snapshot_payload.rs`). -/

structure MembershipGuard where
  leader : NodeId
  term : Nat
  generation : Nat
deriving DecidableEq

structure GuardedMembership where
  guard : MembershipGuard
  change : MembershipChange
deriving DecidableEq

/-- The third-party functions the payloads are built from: `serde_json` on the
three types that travel as JSON, and SHA-256.  The laws are what the callers
rely on: deserializing what was serialized gives it back, and a digest has 32
bytes. -/
structure Codec where
  changeToVec : MembershipChange → Bytes
  changeFromSlice : Bytes → Except String MembershipChange
  changeFromSlice_toVec : ∀ change, changeFromSlice (changeToVec change) = .ok change
  guardedFromSlice : Bytes → Except String GuardedMembership
  membershipToVec : ClusterMembership → Bytes
  membershipFromSlice : Bytes → Except String ClusterMembership
  membershipFromSlice_toVec : ∀ m, membershipFromSlice (membershipToVec m) = .ok m
  sha256 : Bytes → Bytes
  length_sha256 : ∀ bytes, (sha256 bytes).length = 32

def membershipChangeTag : Bytes := [0xFC, 0xFD]
def compactLogTag : Bytes := [0xFE, 0xFD]
def leaderTransferTag : Bytes := [0xFA, 0xFD]
def guardedMembershipTag : Bytes := [0x4E, 0x42, 0x4F, 0x47, 0x01]

/-- `payload.starts_with(tag)`. -/
def startsWith (payload tag : Bytes) : Bool := tag.isPrefixOf payload

section Commands

variable (codec : Codec)

def encodeMembershipChange (change : MembershipChange) : Bytes :=
  membershipChangeTag ++ codec.changeToVec change

def decodeMembershipCommand (payload : Bytes) : Except String (Option MembershipChange) :=
  if ¬ startsWith payload membershipChangeTag then .ok none
  else
    match codec.changeFromSlice (payload.drop membershipChangeTag.length) with
    | .ok change => .ok (some change)
    | .error error => .error s!"decode membership command: {error}"

@[simp] theorem decodeMembershipCommand_encode (change : MembershipChange) :
    decodeMembershipCommand codec (encodeMembershipChange codec change) = .ok (some change) := by
  simp [decodeMembershipCommand, encodeMembershipChange, startsWith, membershipChangeTag,
    codec.changeFromSlice_toVec]

theorem decodeMembershipCommand_eq_none {payload : Bytes} (plain : startsWith payload membershipChangeTag = false) :
    decodeMembershipCommand codec payload = .ok none := by
  simp [decodeMembershipCommand, plain]

theorem startsWith_of_decode_none {payload : Bytes} (decoded : decodeMembershipCommand codec payload = .ok none) :
    startsWith payload membershipChangeTag = false := by
  unfold decodeMembershipCommand at decoded
  split at decoded
  · rename_i plain
    simpa using plain
  · split at decoded <;> simp at decoded

theorem startsWith_encode_compactLogTag (change : MembershipChange) :
    startsWith (encodeMembershipChange codec change) compactLogTag = false := rfl

end Commands

section Envelope

variable (codec : Codec)

/-- `b"NBR3"`. -/
def snapshotMagic : Bytes := [0x4E, 0x42, 0x52, 0x33]
def snapshotVersion : UInt8 := 1
def snapshotHeaderBytes : Nat := 4 + 1 + 3 + 4 + 8 + 32

/-- A `Vec` holds at most `isize::MAX` bytes, so building a longer envelope
aborts with a capacity overflow. -/
def vecCapacity : Nat := 2 ^ 63

def encodeSnapshotPayload (membership : ClusterMembership) (sqlSnapshot : Bytes) :
    Except String Bytes := do
  membership.validate
  let membershipBytes := codec.membershipToVec membership
  if ¬ membershipBytes.length < 2 ^ 32 then
    throw "snapshot membership metadata is too large"
  if ¬ snapshotHeaderBytes + membershipBytes.length + sqlSnapshot.length < vecCapacity then
    throw "capacity overflow"
  pure (snapshotMagic ++ ([snapshotVersion] ++ ([0, 0, 0] ++
    (toBeBytes 4 membershipBytes.length ++ (toBeBytes 8 sqlSnapshot.length ++
    (codec.sha256 (membershipBytes ++ sqlSnapshot) ++ (membershipBytes ++ sqlSnapshot)))))))

/-- `Ok(None)` means the bytes are a legacy raw state-machine snapshot. -/
def decodeSnapshotPayload (bytes : Bytes) : Except String (Option (ClusterMembership × Bytes)) :=
  if bytes.length < 4 ∨ bytes.take 4 ≠ snapshotMagic then .ok none
  else do
    if bytes.length < snapshotHeaderBytes then
      throw s!"truncated Phase-3 Raft snapshot envelope: {bytes.length} bytes"
    let version := (bytes.drop 4).headD 0
    if version ≠ snapshotVersion then
      throw s!"unsupported Phase-3 Raft snapshot envelope version {version}"
    if (bytes.drop 5).take 3 ≠ [0, 0, 0] then
      throw "non-zero reserved Phase-3 snapshot header bytes"
    let membershipLen := fromBeBytes ((bytes.drop 8).take 4)
    let sqlLen := fromBeBytes ((bytes.drop 12).take 8)
    let expected := snapshotHeaderBytes + membershipLen + sqlLen
    if ¬ expected < 2 ^ 64 then
      throw "Phase-3 snapshot envelope length overflow"
    if bytes.length ≠ expected then
      throw s!"Phase-3 snapshot envelope length mismatch: header declares {expected}, got {bytes.length}"
    let membershipBytes := (bytes.drop snapshotHeaderBytes).take membershipLen
    let sqlSnapshot := bytes.drop (snapshotHeaderBytes + membershipLen)
    if codec.sha256 (membershipBytes ++ sqlSnapshot) ≠ (bytes.drop 20).take 32 then
      throw "Phase-3 Raft snapshot envelope checksum mismatch"
    match codec.membershipFromSlice membershipBytes with
    | .error error => throw s!"decode snapshot membership: {error}"
    | .ok membership => do
        membership.validate
        pure (some (membership, sqlSnapshot))

variable {codec}

theorem decodeSnapshotPayload_encode {membership : ClusterMembership} {sqlSnapshot bytes : Bytes}
    (encoded : encodeSnapshotPayload codec membership sqlSnapshot = .ok bytes) :
    decodeSnapshotPayload codec bytes = .ok (some (membership, sqlSnapshot)) := by
  simp only [encodeSnapshotPayload, bind_eq_ok, guard_eq_ok, pure_eq_ok, not_not,
    ClusterMembership.validate_eq_ok] at encoded
  obtain ⟨_, valid, small, fits, rfl⟩ := encoded
  have digest := codec.length_sha256 (codec.membershipToVec membership ++ sqlSnapshot)
  have accepted : membership.validate = .ok () := ClusterMembership.validate_eq_ok.mpr valid
  have metadata : fromBeBytes (toBeBytes 4 (codec.membershipToVec membership).length) =
      (codec.membershipToVec membership).length :=
    fromBeBytes_toBeBytes 4 _ (by simpa using small)
  have sql : fromBeBytes (toBeBytes 8 sqlSnapshot.length) = sqlSnapshot.length :=
    fromBeBytes_toBeBytes 8 _ (by simp only [vecCapacity] at fits; omega)
  have room : snapshotHeaderBytes + (codec.membershipToVec membership).length +
      sqlSnapshot.length < 2 ^ 64 := by
    simp only [vecCapacity] at fits
    omega
  -- The header is read field by field: each `drop` removes exactly the fields before it.
  generalize whole : snapshotMagic ++ ([snapshotVersion] ++ ([0, 0, 0] ++
    (toBeBytes 4 (codec.membershipToVec membership).length ++ (toBeBytes 8 sqlSnapshot.length ++
    (codec.sha256 (codec.membershipToVec membership ++ sqlSnapshot) ++
      (codec.membershipToVec membership ++ sqlSnapshot)))))) = bytes
  have from8 : bytes.drop 8 = toBeBytes 4 (codec.membershipToVec membership).length ++
      (toBeBytes 8 sqlSnapshot.length ++
        (codec.sha256 (codec.membershipToVec membership ++ sqlSnapshot) ++
          (codec.membershipToVec membership ++ sqlSnapshot))) := by
    rw [← whole]
    rfl
  have from12 : bytes.drop 12 = toBeBytes 8 sqlSnapshot.length ++
      (codec.sha256 (codec.membershipToVec membership ++ sqlSnapshot) ++
        (codec.membershipToVec membership ++ sqlSnapshot)) := by
    rw [← List.drop_drop (i := 4) (j := 8), from8, List.drop_left' (length_toBeBytes _ _)]
  have from20 : bytes.drop 20 = codec.sha256 (codec.membershipToVec membership ++ sqlSnapshot) ++
      (codec.membershipToVec membership ++ sqlSnapshot) := by
    rw [← List.drop_drop (i := 8) (j := 12), from12, List.drop_left' (length_toBeBytes _ _)]
  have body : bytes.drop snapshotHeaderBytes = codec.membershipToVec membership ++ sqlSnapshot := by
    change bytes.drop (20 + 32) = _
    rw [← List.drop_drop, from20, List.drop_left' digest]
  have rest : bytes.drop (snapshotHeaderBytes + (codec.membershipToVec membership).length) =
      sqlSnapshot := by
    rw [← List.drop_drop, body, List.drop_left]
  have length : bytes.length =
      snapshotHeaderBytes + (codec.membershipToVec membership).length + sqlSnapshot.length := by
    rw [← whole]
    simp only [List.length_append, length_toBeBytes, digest, snapshotMagic, snapshotHeaderBytes,
      List.length_cons, List.length_nil]
    omega
  have magic : ¬ (bytes.length < 4 ∨ bytes.take 4 ≠ snapshotMagic) := by
    rw [not_or, not_not, length]
    exact ⟨by simp only [snapshotHeaderBytes]; omega, by rw [← whole]; rfl⟩
  have version : (bytes.drop 4).headD 0 = snapshotVersion := by
    rw [← whole]
    rfl
  have reserved : (bytes.drop 5).take 3 = [0, 0, 0] := by
    rw [← whole]
    rfl
  have header : ¬ bytes.length < snapshotHeaderBytes := by omega
  rw [decodeSnapshotPayload, if_neg magic]
  simp only [guard_eq_ok, not_not]
  refine ⟨header, version, reserved, ?_⟩
  rw [from8, from12, from20, List.take_left' (length_toBeBytes _ _),
    List.take_left' (length_toBeBytes _ _), List.take_left' digest, metadata, sql, body, rest,
    List.take_left, codec.membershipFromSlice_toVec]
  exact ⟨room, length, rfl, by simp only [accepted]; rfl⟩

theorem encodeSnapshotPayload_ne_nil {membership : ClusterMembership} {sqlSnapshot bytes : Bytes}
    (encoded : encodeSnapshotPayload codec membership sqlSnapshot = .ok bytes) : bytes ≠ [] := by
  simp only [encodeSnapshotPayload, bind_eq_ok, guard_eq_ok, pure_eq_ok] at encoded
  obtain ⟨-, -, -, -, rfl⟩ := encoded
  simp [snapshotMagic]

end Envelope

end Neuralbase.Consensus
