import Neuralbase.Pitr.Chain

namespace Neuralbase.Pitr

open Neuralbase.Library
open Neuralbase.Consensus (Bytes LogEntry)
open Neuralbase.Replicated

/-! An archive stream (`pitr_archive.rs`): its metadata, and how segment files are read and verified. -/

abbrev KeyId := { bytes : Bytes // bytes.length = 16 }

structure ArchiveStreamMetadata where
  formatVersion : UInt8
  archiveFormatVersion : UInt8
  stateMachineCompatVersion : UInt16
  timeline : TimelineId
  parentTimeline : Option TimelineId
  branchIndex : Option Nat
  baselineBackupSha256 : ArchiveHash
  baselineIndex : Nat
  baselineTerm : Nat
  baselineMembershipGeneration : Nat
  baselineMembershipConfigIndex : Nat
  encrypted : Bool
  keyId : Option KeyId
deriving DecidableEq

/-- `io::ErrorKind`, as far as it matters. -/
inductive IoError where
  | notFound
  | alreadyExists
  | other
deriving DecidableEq

inductive PitrArchiveError where
  | codec (error : ArchiveCodecError)
  | io (error : IoError)
  | unsupportedMetadataVersion (version : UInt8)
  | unsupportedArchiveVersion (version : UInt8)
  | unsupportedStateMachineVersion (version : UInt16)
  | invalidMetadata (reason : String)
  | unexpectedArchiveEntry (name : String)
  | tooManySegments (limit : Nat)
  | gap (expected actual : Nat)
  | overlap (expected actual : Nat)
  | wrongTimeline (index : Nat)
  | previousHashMismatch (index : Nat)
  | filenameIndexMismatch (filenameIndex recordIndex : Nat)
  | conflictingDuplicate (index : Nat)
  | targetUnavailable (index : Nat)
  | indexOverflow
  | stagedVerificationMismatch
  | keyRequired
  | unexpectedKey
  | wrongKeyId
  | segmentTooLarge
  | clockOverflow
  | decryption (reason : String)
deriving DecidableEq

def streamMetadataVersion : UInt8 := 1
def maxArchiveSegmentFiles : Nat := 1000000
def maxPlaintextSegmentBytes : Nat := 256 + maxArchivePayloadBytes + archiveHashBytes

open PitrArchiveError

namespace ArchiveStreamMetadata

def chainSpec (metadata : ArchiveStreamMetadata) : ArchiveChainSpec :=
  { timeline := metadata.timeline, baselineIndex := metadata.baselineIndex
    baselineTerm := metadata.baselineTerm, baselineBackupSha256 := metadata.baselineBackupSha256 }

def validateBranch (metadata : ArchiveStreamMetadata) : Except PitrArchiveError Unit :=
  match metadata.parentTimeline, metadata.branchIndex with
  | none, none => .ok ()
  | some parent, some index =>
    if parent = metadata.timeline then .error (invalidMetadata "branch timeline equals parent timeline")
    else if index ≠ metadata.baselineIndex then
      .error (invalidMetadata "branch index must equal branch baseline index")
    else .ok ()
  | _, _ => .error (invalidMetadata "parent timeline and branch index must appear together")

def validateKey (metadata : ArchiveStreamMetadata) : Except PitrArchiveError Unit :=
  match metadata.encrypted, metadata.keyId with
  | false, none => .ok ()
  | true, some _ => .ok ()
  | false, some _ => .error (invalidMetadata "plaintext stream must not declare a key id")
  | true, none => .error (invalidMetadata "encrypted stream is missing key id")

def validate (metadata : ArchiveStreamMetadata) : Except PitrArchiveError Unit := do
  if metadata.formatVersion ≠ streamMetadataVersion then
    throw (unsupportedMetadataVersion metadata.formatVersion)
  if metadata.archiveFormatVersion ≠ Pitr.archiveFormatVersion then
    throw (unsupportedArchiveVersion metadata.archiveFormatVersion)
  if metadata.stateMachineCompatVersion ≠ archiveStateMachineCompatVersion then
    throw (unsupportedStateMachineVersion metadata.stateMachineCompatVersion)
  metadata.chainSpec.validate.mapError .codec
  if metadata.baselineMembershipGeneration = 0 then
    throw (invalidMetadata "baseline membership generation is zero")
  if metadata.baselineIndex < metadata.baselineMembershipConfigIndex then
    throw (invalidMetadata "baseline membership config index exceeds baseline boundary")
  metadata.validateBranch
  metadata.validateKey

end ArchiveStreamMetadata

/-- The form of a segment in its file: the segment itself, or the segment encrypted. -/
structure SegmentCipher where
  maxSegmentBytes : Nat
  decryptSegment : Bytes → Except String Bytes

def plaintext : SegmentCipher where
  maxSegmentBytes := maxPlaintextSegmentBytes
  decryptSegment := .ok

structure ArchiveStream where
  codec : Consensus.Codec
  sha256 : Bytes → Digest
  cipher : SegmentCipher
  metadata : ArchiveStreamMetadata

/-- A file of the segments directory: its index by its name, and its contents. -/
structure SegmentFile where
  index : Nat
  bytes : Bytes
deriving DecidableEq

namespace ArchiveStream

variable (stream : ArchiveStream)

def readSegmentPath (bytes : Bytes) : Except PitrArchiveError ArchiveSegment := do
  if stream.cipher.maxSegmentBytes < bytes.length then throw segmentTooLarge
  let plain ← (stream.cipher.decryptSegment bytes).mapError decryption
  (ArchiveSegment.decode stream.codec stream.sha256 plain).mapError .codec

def hash (segment : ArchiveSegment) : Except PitrArchiveError ArchiveHash :=
  (segment.hash stream.codec stream.sha256).mapError .codec

/-- `checked_add` of one to a 64-bit index. -/
def nextIndex (index : Nat) : Except PitrArchiveError Nat :=
  if index + 1 < 2 ^ 64 then .ok (index + 1) else .error indexOverflow

/-- One round of the loop of `verify_chain`. -/
def verifyFile (cursor : ChainCursor) (file : SegmentFile) : Except PitrArchiveError ChainCursor := do
  if file.index < cursor.expectedIndex then throw (overlap cursor.expectedIndex file.index)
  if cursor.expectedIndex < file.index then throw (gap cursor.expectedIndex file.index)
  let segment ← stream.readSegmentPath file.bytes
  if segment.timeline ≠ stream.metadata.timeline then throw (wrongTimeline file.index)
  if segment.record.index ≠ file.index then throw (filenameIndexMismatch file.index segment.record.index)
  if segment.previousHash ≠ cursor.previousHash then throw (previousHashMismatch file.index)
  let previousHash ← stream.hash segment
  let expectedIndex ← nextIndex cursor.expectedIndex
  pure { expectedIndex, previousHash,
         frontier := { index := file.index, term := segment.record.term, segmentHash := previousHash,
                       segments := cursor.frontier.segments + 1 } }

variable (stream : ArchiveStream)

def anchor : ArchiveHash := stream.sha256 stream.metadata.chainSpec.anchorBytes

end ArchiveStream

section Chains

variable {stream : ArchiveStream} {links before : List ChainLink} {link : ChainLink}
  {segment : ArchiveSegment} {bytes nonce plain : Bytes}

theorem length_of_encode (encoded : segment.encode stream.codec stream.sha256 = .ok plain) :
    plain.length ≤ maxPlaintextSegmentBytes := by
  obtain ⟨valid, rfl⟩ := ArchiveSegment.encode_eq_ok encoded
  have payload := (ArchiveSegment.sound_of_validate valid).payload
  rw [List.length_append, ArchiveSegment.length_content,
    (stream.sha256 (segment.content stream.sha256)).property]
  simp only [headerBytes, maxPlaintextSegmentBytes, archiveTimelineBytes, archiveHashBytes]
  omega

end Chains

section Verify

variable {stream : ArchiveStream} {links before : List ChainLink} {link : ChainLink} {key : Option KeyId}

theorem spec_of_validate (valid : stream.metadata.validate = .ok ()) : stream.metadata.chainSpec.validate = .ok () := by
  obtain ⟨_, valid⟩ := guard_eq_ok.mp valid
  obtain ⟨_, valid⟩ := guard_eq_ok.mp valid
  obtain ⟨_, valid⟩ := guard_eq_ok.mp valid
  exact mapError_eq_ok.mp (check_eq_ok.mp valid).1

theorem ArchiveStream.nextIndex_eq_ok {index next : Nat} :
    ArchiveStream.nextIndex index = .ok next ↔ index + 1 < 2 ^ 64 ∧ next = index + 1 := by
  unfold ArchiveStream.nextIndex
  split_ifs with fits
  · simp only [fits, true_and, Except.ok.injEq]
    exact eq_comm
  · simp only [fits, false_and]

end Verify

def plainStream : ArchiveStream where
  codec := Consensus.plainCodec
  sha256 := plainHash
  cipher := plaintext
  metadata :=
    { formatVersion := 1, archiveFormatVersion := 1, stateMachineCompatVersion := 1
      timeline := plainSpec.timeline, parentTimeline := none, branchIndex := none
      baselineBackupSha256 := plainSpec.baselineBackupSha256, baselineIndex := 4, baselineTerm := 2
      baselineMembershipGeneration := 1, baselineMembershipConfigIndex := 0, encrypted := false, keyId := none }

end Neuralbase.Pitr
