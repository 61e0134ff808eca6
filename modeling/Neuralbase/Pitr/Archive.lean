import Neuralbase.Backup
import Neuralbase.Consensus.Payload
import Neuralbase.Replicated.StateMachine

namespace Neuralbase.Pitr

open Neuralbase.Library
open Neuralbase.Consensus (Bytes LogEntry MembershipChange startsWith membershipChangeTag encodeMembershipChange)
open Neuralbase.Replicated

/-! Recovery records for point-in-time recovery and the segments they are archived in
(`pitr.rs`).  A segment holds one record, names the segment before it by its hash, and
has its own checksum at its end. -/

def archiveFormatVersion : UInt8 := 1
def archiveStateMachineCompatVersion : UInt16 := backupStateMachineCompatVersion
def archiveTimelineBytes : Nat := 16
def archiveHashBytes : Nat := 32
def maxArchivePayloadBytes : Nat := 16 * 1024 * 1024
def checksumBytes : Nat := archiveHashBytes
def headerBytes : Nat :=
  4 + 1 + 1 + 1 + 1 + 2 + archiveTimelineBytes + 8 + 8 + 8 + 8 + archiveHashBytes + archiveHashBytes + 4
def knownFlags : UInt8 := 0
def archiveMagic : Bytes := utf8 "NBAR"

theorem length_archiveMagic : archiveMagic.length = 4 := rfl

abbrev TimelineId := { bytes : Bytes // bytes.length = archiveTimelineBytes }
abbrev ArchiveHash := Digest

/-- `[0u8; ARCHIVE_TIMELINE_BYTES]`. -/
def zeroTimeline : TimelineId := ⟨List.replicate archiveTimelineBytes 0, by simp⟩

inductive RecoveryRecordKind where
  | sql
  | identity
  | membership
  | control
deriving DecidableEq

structure RecoveryRecord where
  index : Nat
  term : Nat
  kind : RecoveryRecordKind
  payload : Bytes
deriving DecidableEq

structure ArchiveSegment where
  timeline : TimelineId
  stateMachineCompatVersion : UInt16
  createdUnixMs : Nat
  previousHash : ArchiveHash
  record : RecoveryRecord
deriving DecidableEq

structure ArchiveSegment.Fits (segment : ArchiveSegment) : Prop where
  created : segment.createdUnixMs < 2 ^ 64
  index : segment.record.index < 2 ^ 64
  term : segment.record.term < 2 ^ 64

structure ArchiveChainSpec where
  timeline : TimelineId
  baselineIndex : Nat
  baselineTerm : Nat
  baselineBackupSha256 : ArchiveHash
deriving DecidableEq

structure ArchiveFrontier where
  index : Nat
  term : Nat
  segmentHash : ArchiveHash
  segments : Nat
deriving DecidableEq

inductive ArchiveCodecError where
  | unexpectedEof
  | invalidMagic
  | unsupportedVersion (version : UInt8)
  | unsupportedFlags (flags : UInt8)
  | unsupportedRecordKind (kind : UInt8)
  | reservedFieldNonZero
  | unsupportedStateMachineVersion (version : UInt16)
  | zeroTimeline
  | invalidBoundary
  | payloadTooLarge
  | lengthMismatch (declared actual : Nat)
  | payloadHashMismatch
  | checksumMismatch
  | trailingBytes
  | nonCanonicalEncoding
  | recordKindPayloadMismatch
  | invalidSql (error : MutationCodecError)
  | invalidIdentity (error : IdentityCodecError)
  | invalidMembership (error : String)
  | nonCanonicalMembership
  | unsupportedCommittedCommand
  | wrongTimeline
  | gap (expected actual : Nat)
  | overlap (expected actual : Nat)
  | previousHashMismatch
  | indexOverflow
deriving DecidableEq

open ArchiveCodecError

namespace RecoveryRecordKind

def toByte : RecoveryRecordKind → UInt8
  | sql => 1
  | identity => 2
  | membership => 3
  | control => 4

def decode (value : UInt8) : Except ArchiveCodecError RecoveryRecordKind :=
  if value = 1 then .ok sql
  else if value = 2 then .ok identity
  else if value = 3 then .ok membership
  else if value = 4 then .ok control
  else .error (unsupportedRecordKind value)

@[simp] theorem decode_toByte (kind : RecoveryRecordKind) : decode kind.toByte = .ok kind := by
  cases kind <;> rfl

end RecoveryRecordKind

section Records

variable (codec : Consensus.Codec)

def decodeMembershipPayload (bytes : Bytes) : Except ArchiveCodecError MembershipChange := do
  if ¬ startsWith bytes membershipChangeTag then throw recordKindPayloadMismatch
  let change ← (codec.changeFromSlice (bytes.drop membershipChangeTag.length)).mapError invalidMembership
  if encodeMembershipChange codec change ≠ bytes then throw nonCanonicalMembership
  pure change

def classify (command : Bytes) : Except ArchiveCodecError RecoveryRecordKind :=
  if isReplicatedMutation command then do
    let _ ← (ReplicatedMutation.decode command).mapError invalidSql
    pure .sql
  else if isReplicatedIdentityMutation command then do
    let _ ← (ReplicatedIdentityMutation.decode command).mapError invalidIdentity
    pure .identity
  else if startsWith command membershipChangeTag then do
    let _ ← decodeMembershipPayload codec command
    pure .membership
  else if command = [] ∨ command = sqlReadinessBarrier then pure .control
  else throw unsupportedCommittedCommand

namespace RecoveryRecord

def fromLogEntry (entry : LogEntry) : Except ArchiveCodecError RecoveryRecord := do
  if entry.index = 0 ∨ entry.term = 0 then throw invalidBoundary
  if maxArchivePayloadBytes < entry.command.length then throw payloadTooLarge
  let kind ← classify codec entry.command
  pure { index := entry.index, term := entry.term, kind, payload := entry.command }

def toLogEntry (record : RecoveryRecord) : LogEntry :=
  { term := record.term, index := record.index, command := record.payload }

def validatePayload (record : RecoveryRecord) : Except ArchiveCodecError Unit :=
  match record.kind with
  | .sql => do
      if ¬ isReplicatedMutation record.payload then throw recordKindPayloadMismatch
      let _ ← (ReplicatedMutation.decode record.payload).mapError invalidSql
      pure ()
  | .identity => do
      if ¬ isReplicatedIdentityMutation record.payload then throw recordKindPayloadMismatch
      let _ ← (ReplicatedIdentityMutation.decode record.payload).mapError invalidIdentity
      pure ()
  | .membership => do
      let _ ← decodeMembershipPayload codec record.payload
      pure ()
  | .control =>
    if record.payload ≠ [] ∧ record.payload ≠ sqlReadinessBarrier then throw recordKindPayloadMismatch
    else pure ()

def validate (record : RecoveryRecord) : Except ArchiveCodecError Unit := do
  if record.index = 0 ∨ record.term = 0 then throw invalidBoundary
  if maxArchivePayloadBytes < record.payload.length then throw payloadTooLarge
  record.validatePayload codec

end RecoveryRecord

end Records

namespace ArchiveSegment

variable (codec : Consensus.Codec) (sha256 : Bytes → Digest)

def validate (segment : ArchiveSegment) : Except ArchiveCodecError Unit := do
  if segment.timeline = zeroTimeline then throw ArchiveCodecError.zeroTimeline
  if segment.stateMachineCompatVersion ≠ archiveStateMachineCompatVersion then
    throw (unsupportedStateMachineVersion segment.stateMachineCompatVersion)
  segment.record.validate codec

def content (segment : ArchiveSegment) : Bytes :=
  archiveMagic ++ ([archiveFormatVersion] ++ ([knownFlags] ++ ([segment.record.kind.toByte] ++ ([0] ++
    (toBeBytes 2 segment.stateMachineCompatVersion.toNat ++ (segment.timeline.val ++
    (toBeBytes 8 segment.createdUnixMs ++ (toBeBytes 8 segment.record.index ++
    (toBeBytes 8 segment.record.index ++ (toBeBytes 8 segment.record.term ++
    (segment.previousHash.val ++ ((sha256 segment.record.payload).val ++
    (toBeBytes 4 segment.record.payload.length ++ segment.record.payload)))))))))))))

def encode (segment : ArchiveSegment) : Except ArchiveCodecError Bytes := do
  segment.validate codec
  if 2 ^ 32 ≤ segment.record.payload.length then throw payloadTooLarge
  pure (segment.content sha256 ++ (sha256 (segment.content sha256)).val)

def readVersion : Reader ArchiveCodecError UInt16 := do
  let version ← .number unexpectedEof 2
  .lift (if UInt16.ofNat version = archiveStateMachineCompatVersion then .ok (UInt16.ofNat version)
    else .error (unsupportedStateMachineVersion (UInt16.ofNat version)))

/-- The index of the one record, which is written as the first and as the last. -/
def readIndex : Reader ArchiveCodecError Nat := do
  let firstIndex ← .number unexpectedEof 8
  let lastIndex ← .number unexpectedEof 8
  .lift (if firstIndex = 0 ∨ firstIndex ≠ lastIndex then .error invalidBoundary else .ok firstIndex)

def readTerm : Reader ArchiveCodecError Nat := do
  let term ← .number unexpectedEof 8
  .lift (if term = 0 then .error invalidBoundary else .ok term)

/-- The payload, in a message of `actual` bytes. -/
def readPayload (actual : Nat) : Reader ArchiveCodecError Bytes := do
  let length ← .number unexpectedEof 4
  .lift (if maxArchivePayloadBytes < length then .error payloadTooLarge else .ok ())
  .lift (if headerBytes + length + checksumBytes ≠ actual then
    .error (lengthMismatch (headerBytes + length + checksumBytes) actual) else .ok ())
  .take unexpectedEof length

def readFields (actual : Nat) : Reader ArchiveCodecError (ArchiveSegment × ArchiveHash) := do
  let magicBytes ← .take unexpectedEof 4
  .lift (if magicBytes = archiveMagic then .ok () else .error invalidMagic)
  let version ← .u8 unexpectedEof
  .lift (if version = archiveFormatVersion then .ok () else .error (unsupportedVersion version))
  let flags ← .u8 unexpectedEof
  .lift (if flags = knownFlags then .ok () else .error (unsupportedFlags flags))
  let kindByte ← .u8 unexpectedEof
  let kind ← .lift (RecoveryRecordKind.decode kindByte)
  let reserved ← .u8 unexpectedEof
  .lift (if reserved = 0 then .ok () else .error reservedFieldNonZero)
  let stateMachineCompatVersion ← readVersion
  let timeline ← .array unexpectedEof archiveTimelineBytes
  let createdUnixMs ← .number unexpectedEof 8
  let index ← readIndex
  let term ← readTerm
  let previousHash ← .array unexpectedEof archiveHashBytes
  let expectedPayloadHash ← .array unexpectedEof archiveHashBytes
  let payload ← readPayload actual
  let record : RecoveryRecord := { index, term, kind, payload }
  pure ({ timeline, stateMachineCompatVersion, createdUnixMs, previousHash, record }, expectedPayloadHash)

def readSegment (actual : Nat) : Reader ArchiveCodecError ArchiveSegment := do
  let (segment, expectedPayloadHash) ← readFields actual
  .finished trailingBytes
  .lift (if sha256 segment.record.payload = expectedPayloadHash then .ok segment
    else .error payloadHashMismatch)

def decode (bytes : Bytes) : Except ArchiveCodecError ArchiveSegment := do
  if headerBytes + maxArchivePayloadBytes + checksumBytes < bytes.length then throw payloadTooLarge
  if bytes.length < headerBytes + checksumBytes then throw unexpectedEof
  let content := bytes.take (bytes.length - checksumBytes)
  if bytes.drop (bytes.length - checksumBytes) ≠ (sha256 content).val then throw checksumMismatch
  let segment ← (readSegment sha256 bytes.length content).map Prod.fst
  segment.validate codec
  let canonical ← segment.encode codec sha256
  if canonical ≠ bytes then throw nonCanonicalEncoding
  pure segment

def hash (segment : ArchiveSegment) : Except ArchiveCodecError ArchiveHash :=
  (segment.encode codec sha256).map sha256

section RoundTrip

variable {codec sha256} {segment : ArchiveSegment} {bytes : Bytes} {actual : Nat}

structure Sound (segment : ArchiveSegment) : Prop where
  timeline : segment.timeline ≠ zeroTimeline
  version : segment.stateMachineCompatVersion = archiveStateMachineCompatVersion
  index : segment.record.index ≠ 0
  term : segment.record.term ≠ 0
  payload : segment.record.payload.length ≤ maxArchivePayloadBytes

theorem sound_of_validate (valid : segment.validate codec = .ok ()) : segment.Sound := by
  obtain ⟨timeline, valid⟩ := guard_eq_ok.mp valid
  obtain ⟨version, valid⟩ := guard_eq_ok.mp valid
  obtain ⟨placed, valid⟩ := guard_eq_ok.mp valid
  obtain ⟨small, _⟩ := guard_eq_ok.mp valid
  obtain ⟨index, term⟩ := not_or.mp placed
  exact ⟨timeline, not_not.mp version, index, term, not_lt.mp small⟩

theorem Sound.short (sound : segment.Sound) : segment.record.payload.length < 2 ^ 32 :=
  lt_of_le_of_lt sound.payload (by decide)

theorem encode_of_validate (valid : segment.validate codec = .ok ()) :
    segment.encode codec sha256 = .ok (segment.content sha256 ++ (sha256 (segment.content sha256)).val) :=
  check_eq_ok.mpr ⟨valid, guard_eq_ok.mpr ⟨not_le.mpr (sound_of_validate valid).short, rfl⟩⟩

theorem encode_eq_ok (encoded : segment.encode codec sha256 = .ok bytes) :
    segment.validate codec = .ok () ∧ bytes = segment.content sha256 ++ (sha256 (segment.content sha256)).val := by
  have valid := (check_eq_ok.mp encoded).1
  rw [encode_of_validate valid] at encoded
  exact ⟨valid, (Except.ok.inj encoded).symm⟩

theorem length_content (sha256 : Bytes → Digest) (segment : ArchiveSegment) :
    (segment.content sha256).length = headerBytes + segment.record.payload.length := by
  simp only [content, List.length_append, length_toBeBytes, segment.timeline.property,
    segment.previousHash.property, (sha256 segment.record.payload).property]
  simp only [length_archiveMagic, headerBytes, archiveHashBytes, List.length_singleton]
  omega

theorem reads_version (sound : segment.Sound) :
    readVersion.Reads (toBeBytes 2 segment.stateMachineCompatVersion.toNat) segment.stateMachineCompatVersion := by
  refine (Reader.reads_number segment.stateMachineCompatVersion.toNat_lt).checked ?_
  rw [UInt16.ofNat_toNat, if_pos sound.version]

theorem reads_index (fits : segment.Fits) (sound : segment.Sound) :
    readIndex.Reads (toBeBytes 8 segment.record.index ++ toBeBytes 8 segment.record.index) segment.record.index :=
  (Reader.reads_number fits.index).bind
    ((Reader.reads_number fits.index).checked (if_neg (by simp [sound.index])))

theorem reads_payload (sound : segment.Sound)
    (length : headerBytes + segment.record.payload.length + checksumBytes = actual) :
    (readPayload actual).Reads (toBeBytes 4 segment.record.payload.length ++ segment.record.payload)
      segment.record.payload := by
  refine (Reader.reads_number sound.short).bind ?_
  refine (Reader.reads_lift (if_neg (not_lt.mpr sound.payload))).silent ?_
  exact (Reader.reads_lift (if_neg (not_not.mpr length))).silent (Reader.reads_take rfl)

theorem reads_fields (sha256 : Bytes → Digest) (fits : segment.Fits) (sound : segment.Sound)
    (length : headerBytes + segment.record.payload.length + checksumBytes = actual) :
    (readFields actual).Reads (segment.content sha256) (segment, sha256 segment.record.payload) := by
  refine (Reader.reads_take length_archiveMagic).bind ?_
  refine (Reader.reads_lift rfl).silent ?_
  refine (Reader.reads_u8 _).bind ?_
  refine (Reader.reads_lift rfl).silent ?_
  refine (Reader.reads_u8 _).bind ?_
  refine (Reader.reads_lift rfl).silent ?_
  refine (Reader.reads_u8 _).bind ?_
  refine (Reader.reads_lift (RecoveryRecordKind.decode_toByte _)).silent ?_
  refine (Reader.reads_u8 _).bind ?_
  refine (Reader.reads_lift rfl).silent ?_
  refine (reads_version sound).bind ?_
  refine (Reader.reads_array _).bind ?_
  refine (Reader.reads_number fits.created).bind ?_
  rw [← List.append_assoc (toBeBytes 8 segment.record.index)]
  refine (reads_index fits sound).bind ?_
  refine ((Reader.reads_number fits.term).checked (if_neg sound.term)).bind ?_
  refine (Reader.reads_array _).bind ?_
  refine (Reader.reads_array _).bind ?_
  exact (reads_payload sound length).returning _

theorem readSegment_content (fits : segment.Fits) (sound : segment.Sound)
    (length : headerBytes + segment.record.payload.length + checksumBytes = actual) :
    readSegment sha256 actual (segment.content sha256) = .ok (segment, []) := by
  have read := reads_fields sha256 fits sound length []
  rw [List.append_nil] at read
  show (readFields actual (segment.content sha256)).bind _ = _
  rw [read]
  show (Reader.lift _ []) = _
  rw [if_pos rfl]
  rfl

theorem decode_encode (fits : segment.Fits) (encoded : segment.encode codec sha256 = .ok bytes) :
    decode codec sha256 bytes = .ok segment := by
  have again := encoded
  obtain ⟨valid, rfl⟩ := encode_eq_ok encoded
  have sound := sound_of_validate valid
  have length : (segment.content sha256 ++ (sha256 (segment.content sha256)).val).length =
      (segment.content sha256).length + checksumBytes := by
    rw [List.length_append, (sha256 (segment.content sha256)).property]
    rfl
  have cut : (segment.content sha256 ++ (sha256 (segment.content sha256)).val).length - checksumBytes =
      (segment.content sha256).length := by omega
  have body := length_content sha256 segment
  refine guard_eq_ok.mpr ⟨?_, guard_eq_ok.mpr ⟨?_, guard_eq_ok.mpr ⟨?_, ?_⟩⟩⟩
  · have := sound.payload
    omega
  · omega
  · rw [cut, List.drop_left, List.take_left]
    exact not_not.mpr rfl
  · rw [cut, List.take_left, readSegment_content fits sound (by omega)]
    refine check_eq_ok.mpr ⟨valid, bind_eq_ok.mpr ⟨_, again, guard_eq_ok.mpr ⟨not_not.mpr rfl, rfl⟩⟩⟩

theorem encode_decode (decoded : decode codec sha256 bytes = .ok segment) :
    segment.encode codec sha256 = .ok bytes := by
  obtain ⟨_, decoded⟩ := guard_eq_ok.mp decoded
  obtain ⟨_, decoded⟩ := guard_eq_ok.mp decoded
  obtain ⟨_, decoded⟩ := guard_eq_ok.mp decoded
  obtain ⟨read, _, decoded⟩ := bind_eq_ok.mp decoded
  obtain ⟨_, decoded⟩ := check_eq_ok.mp decoded
  obtain ⟨canonical, encoded, decoded⟩ := bind_eq_ok.mp decoded
  obtain ⟨same, decoded⟩ := guard_eq_ok.mp decoded
  cases pure_eq_ok.mp decoded
  rwa [not_not.mp same] at encoded

theorem hash_of_decode (decoded : decode codec sha256 bytes = .ok segment) :
    segment.hash codec sha256 = .ok (sha256 bytes) := by
  rw [hash, encode_decode decoded]
  rfl

end RoundTrip

end ArchiveSegment

end Neuralbase.Pitr
