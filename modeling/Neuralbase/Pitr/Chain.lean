import Mathlib
import Neuralbase.Consensus.Schedule
import Neuralbase.Library.HashChain
import Neuralbase.Pitr.Archive

namespace Neuralbase.Pitr

open Neuralbase.Library
open Neuralbase.Consensus (Bytes plainCodec)
open Neuralbase.Replicated
open ArchiveCodecError
open ArchiveSegment

/-! Chains of archived segments after the boundary of a backup (`verify_archive_chain` of
`pitr.rs`). -/

namespace ArchiveChainSpec

def validate (spec : ArchiveChainSpec) : Except ArchiveCodecError Unit := do
  if spec.timeline = zeroTimeline then throw ArchiveCodecError.zeroTimeline
  if spec.baselineIndex = 0 ∧ spec.baselineTerm ≠ 0 then throw invalidBoundary
  if spec.baselineIndex ≠ 0 ∧ spec.baselineTerm = 0 then throw invalidBoundary
  pure ()

/-- What the first segment names as the one before it is the hash of these bytes. -/
def anchorBytes (spec : ArchiveChainSpec) : Bytes :=
  utf8 "NeuralBase-PITR-v1-baseline-anchor" ++ (spec.timeline.val ++ (toBeBytes 8 spec.baselineIndex ++
    (toBeBytes 8 spec.baselineTerm ++ spec.baselineBackupSha256.val)))

def baselineAnchor (sha256 : Bytes → Digest) (spec : ArchiveChainSpec) : Except ArchiveCodecError ArchiveHash := do
  spec.validate
  pure (sha256 spec.anchorBytes)

end ArchiveChainSpec

/-- `checked_add` of one to a 64-bit index. -/
def nextIndex (index : Nat) : Except ArchiveCodecError Nat :=
  if index + 1 < 2 ^ 64 then .ok (index + 1) else .error indexOverflow

structure ChainCursor where
  expectedIndex : Nat
  previousHash : ArchiveHash
  frontier : ArchiveFrontier

section Verify

variable (codec : Consensus.Codec) (sha256 : Bytes → Digest) (spec : ArchiveChainSpec)

def ChainCursor.advance (cursor : ChainCursor) (encoded : Bytes) : Except ArchiveCodecError ChainCursor := do
  let segment ← decode codec sha256 encoded
  if segment.timeline ≠ spec.timeline then throw wrongTimeline
  if segment.record.index < cursor.expectedIndex then
    throw (overlap cursor.expectedIndex segment.record.index)
  if cursor.expectedIndex < segment.record.index then throw (gap cursor.expectedIndex segment.record.index)
  if segment.previousHash ≠ cursor.previousHash then throw previousHashMismatch
  let previousHash ← segment.hash codec sha256
  let expectedIndex ← nextIndex cursor.expectedIndex
  pure { expectedIndex, previousHash,
         frontier := { index := segment.record.index, term := segment.record.term,
                       segmentHash := previousHash, segments := cursor.frontier.segments + 1 } }

def ChainCursor.start : Except ArchiveCodecError ChainCursor := do
  spec.validate
  let expectedIndex ← nextIndex spec.baselineIndex
  let previousHash ← spec.baselineAnchor sha256
  pure { expectedIndex, previousHash,
         frontier := { index := spec.baselineIndex, term := spec.baselineTerm,
                       segmentHash := previousHash, segments := 0 } }

def verifyArchiveChain (encodedSegments : List Bytes) : Except ArchiveCodecError ArchiveFrontier := do
  let cursor ← ChainCursor.start sha256 spec
  let cursor ← encodedSegments.foldlM (ChainCursor.advance codec sha256 spec) cursor
  pure cursor.frontier

end Verify

section Chains

variable {codec : Consensus.Codec} {sha256 : Bytes → Digest} {spec : ArchiveChainSpec}
  {cursor cursor' : ChainCursor} {encoded : Bytes} {encodedSegments : List Bytes}
  {frontier : ArchiveFrontier} {anchor : ArchiveHash}

def NamesPrevious (codec : Consensus.Codec) (sha256 : Bytes → Digest) (encoded : Bytes) (hash : ArchiveHash) : Prop :=
  ∃ segment, decode codec sha256 encoded = .ok segment ∧ segment.previousHash = hash

theorem NamesPrevious.unique {first second : ArchiveHash} (named : NamesPrevious codec sha256 encoded first)
    (named' : NamesPrevious codec sha256 encoded second) : first = second := by
  obtain ⟨segment, decoded, rfl⟩ := named
  obtain ⟨segment', decoded', rfl⟩ := named'
  rw [decoded] at decoded'
  cases decoded'
  rfl

structure Advances (codec : Consensus.Codec) (sha256 : Bytes → Digest) (spec : ArchiveChainSpec)
    (cursor : ChainCursor) (encoded : Bytes) (segment : ArchiveSegment) (cursor' : ChainCursor) : Prop where
  decoded : decode codec sha256 encoded = .ok segment
  timeline : segment.timeline = spec.timeline
  index : segment.record.index = cursor.expectedIndex
  previous : segment.previousHash = cursor.previousHash
  bounded : cursor.expectedIndex + 1 < 2 ^ 64
  result : cursor' = { expectedIndex := cursor.expectedIndex + 1, previousHash := sha256 encoded,
                       frontier := { index := segment.record.index, term := segment.record.term,
                                     segmentHash := sha256 encoded,
                                     segments := cursor.frontier.segments + 1 } }

theorem nextIndex_eq_ok {index result : Nat} :
    nextIndex index = .ok result ↔ index + 1 < 2 ^ 64 ∧ result = index + 1 := by
  unfold nextIndex
  split_ifs with bounded
  · exact ⟨fun same => ⟨bounded, (Except.ok.inj same).symm⟩, fun ⟨_, same⟩ => congrArg _ same.symm⟩
  · exact ⟨fun same => (nomatch same), fun ⟨fits, _⟩ => absurd fits bounded⟩

theorem advance_eq_ok : cursor.advance codec sha256 spec encoded = .ok cursor' ↔
    ∃ segment, Advances codec sha256 spec cursor encoded segment cursor' := by
  constructor
  · intro advanced
    obtain ⟨segment, decoded, advanced⟩ := bind_eq_ok.mp advanced
    obtain ⟨timeline, advanced⟩ := guard_eq_ok.mp advanced
    obtain ⟨above, advanced⟩ := guard_eq_ok.mp advanced
    obtain ⟨below, advanced⟩ := guard_eq_ok.mp advanced
    obtain ⟨previous, advanced⟩ := guard_eq_ok.mp advanced
    obtain ⟨hash, hashed, advanced⟩ := bind_eq_ok.mp advanced
    rw [hash_of_decode decoded] at hashed
    cases hashed
    obtain ⟨next, incremented, advanced⟩ := bind_eq_ok.mp advanced
    obtain ⟨bounded, rfl⟩ := nextIndex_eq_ok.mp incremented
    cases pure_eq_ok.mp advanced
    exact ⟨segment, decoded, not_not.mp timeline, by omega, not_not.mp previous, bounded, rfl⟩
  · rintro ⟨segment, advances⟩
    refine bind_eq_ok.mpr ⟨segment, advances.decoded, guard_eq_ok.mpr ⟨not_not.mpr advances.timeline, ?_⟩⟩
    refine guard_eq_ok.mpr ⟨not_lt.mpr advances.index.ge, guard_eq_ok.mpr ⟨not_lt.mpr advances.index.le, ?_⟩⟩
    refine guard_eq_ok.mpr ⟨not_not.mpr advances.previous, ?_⟩
    refine bind_eq_ok.mpr ⟨_, hash_of_decode advances.decoded, ?_⟩
    refine bind_eq_ok.mpr ⟨_, nextIndex_eq_ok.mpr ⟨advances.bounded, rfl⟩, ?_⟩
    rw [advances.result]
    rfl

theorem start_eq_ok (started : ChainCursor.start sha256 spec = .ok cursor) :
    spec.validate = .ok () ∧ spec.baselineIndex + 1 < 2 ^ 64 ∧
      cursor = { expectedIndex := spec.baselineIndex + 1, previousHash := sha256 spec.anchorBytes,
                 frontier := { index := spec.baselineIndex, term := spec.baselineTerm,
                               segmentHash := sha256 spec.anchorBytes, segments := 0 } } := by
  obtain ⟨valid, started⟩ := check_eq_ok.mp started
  obtain ⟨next, incremented, started⟩ := bind_eq_ok.mp started
  obtain ⟨bounded, rfl⟩ := nextIndex_eq_ok.mp incremented
  obtain ⟨anchor, anchored, started⟩ := bind_eq_ok.mp started
  cases pure_eq_ok.mp (check_eq_ok.mp anchored).2
  cases pure_eq_ok.mp started
  exact ⟨valid, bounded, rfl⟩

structure Covers (codec : Consensus.Codec) (sha256 : Bytes → Digest) (spec : ArchiveChainSpec)
    (encodedSegments : List Bytes) (segments : List ArchiveSegment) (cursor : ChainCursor) : Prop where
  decoded : List.Forall₂ (fun encoded segment => decode codec sha256 encoded = .ok segment)
    encodedSegments segments
  timeline : ∀ segment ∈ segments, segment.timeline = spec.timeline
  indexes : segments.map (fun segment => segment.record.index) =
    List.range' (spec.baselineIndex + 1) segments.length
  linked : Linked sha256 (NamesPrevious codec sha256) (sha256 spec.anchorBytes) encodedSegments
  expected : cursor.expectedIndex = spec.baselineIndex + 1 + segments.length
  previous : cursor.previousHash = tip sha256 (sha256 spec.anchorBytes) encodedSegments
  frontierIndex : cursor.frontier.index = spec.baselineIndex + segments.length
  frontierHash : cursor.frontier.segmentHash = cursor.previousHash
  frontierSegments : cursor.frontier.segments = segments.length

theorem Covers.advance {segments : List ArchiveSegment} {segment : ArchiveSegment}
    (covers : Covers codec sha256 spec encodedSegments segments cursor)
    (advances : Advances codec sha256 spec cursor encoded segment cursor') :
    Covers codec sha256 spec (encodedSegments ++ [encoded]) (segments ++ [segment]) cursor' := by
  have index : segment.record.index = spec.baselineIndex + 1 + segments.length :=
    advances.index.trans covers.expected
  obtain rfl := advances.result
  constructor
  case decoded => exact List.rel_append covers.decoded (.cons advances.decoded .nil)
  case timeline =>
    intro segment' inside
    rcases List.mem_append.mp inside with inside | inside
    · exact covers.timeline segment' inside
    · obtain rfl := List.mem_singleton.mp inside
      exact advances.timeline
  case indexes =>
    rw [List.map_append, covers.indexes, List.length_append, List.length_singleton, List.range'_concat]
    simp [index]
  case linked =>
    exact linked_concat.mpr ⟨covers.linked, segment, advances.decoded, advances.previous.trans covers.previous⟩
  case expected => simp [covers.expected, add_assoc]
  case previous => exact (@tip_concat _ _ sha256 _ encodedSegments encoded).symm
  case frontierIndex =>
    simp only [index, List.length_append, List.length_singleton]
    omega
  case frontierHash => rfl
  case frontierSegments => simp [covers.frontierSegments]

theorem covers_start (started : ChainCursor.start sha256 spec = .ok cursor) :
    Covers codec sha256 spec [] [] cursor := by
  obtain ⟨_, _, rfl⟩ := start_eq_ok started
  exact { decoded := .nil, timeline := by simp, indexes := rfl, linked := trivial, expected := rfl,
          previous := rfl, frontierIndex := rfl, frontierHash := rfl, frontierSegments := rfl }

theorem covers_run (started : ChainCursor.start sha256 spec = .ok cursor)
    (run : encodedSegments.foldlM (ChainCursor.advance codec sha256 spec) cursor = .ok cursor') :
    ∃ segments, Covers codec sha256 spec encodedSegments segments cursor' := by
  induction encodedSegments using List.reverseRecOn generalizing cursor' with
  | nil =>
    cases pure_eq_ok.mp run
    exact ⟨[], covers_start started⟩
  | append_singleton before last induction =>
    rw [List.foldlM_append] at run
    obtain ⟨middle, run, last⟩ := bind_eq_ok.mp run
    obtain ⟨segments, covers⟩ := induction run
    rw [List.foldlM_cons] at last
    obtain ⟨after, advanced, done⟩ := bind_eq_ok.mp last
    cases pure_eq_ok.mp done
    obtain ⟨segment, advances⟩ := advance_eq_ok.mp advanced
    exact ⟨segments ++ [segment], covers.advance advances⟩

theorem covers_of_verify (verified : verifyArchiveChain codec sha256 spec encodedSegments = .ok frontier) :
    ∃ segments cursor, Covers codec sha256 spec encodedSegments segments cursor ∧ cursor.frontier = frontier := by
  obtain ⟨first, started, verified⟩ := bind_eq_ok.mp verified
  obtain ⟨cursor, run, verified⟩ := bind_eq_ok.mp verified
  obtain ⟨segments, covers⟩ := covers_run started run
  exact ⟨segments, cursor, covers, pure_eq_ok.mp verified⟩

theorem linked_of_verify (verified : verifyArchiveChain codec sha256 spec encodedSegments = .ok frontier) :
    Linked sha256 (NamesPrevious codec sha256) (sha256 spec.anchorBytes) encodedSegments ∧
      frontier.segmentHash = tip sha256 (sha256 spec.anchorBytes) encodedSegments := by
  obtain ⟨segments, cursor, covers, rfl⟩ := covers_of_verify verified
  exact ⟨covers.linked, covers.frontierHash.trans covers.previous⟩

theorem ne_anchorBytes {segment : ArchiveSegment} (spec : ArchiveChainSpec)
    (decoded : ArchiveSegment.decode codec sha256 encoded = .ok segment) : encoded ≠ spec.anchorBytes := by
  obtain ⟨_, rfl⟩ := encode_eq_ok (encode_decode decoded)
  intro same
  have start : archiveMagic = (utf8 "NeuralBase-PITR-v1-baseline-anchor").take 4 := by
    have starts := congrArg (List.take 4) same
    rwa [content, List.append_assoc archiveMagic,
      List.take_left' length_archiveMagic,
      ArchiveChainSpec.anchorBytes, List.take_append_of_le_length (by decide)] at starts
  exact absurd start (by decide)

theorem decoded_of_verify (verified : verifyArchiveChain codec sha256 spec encodedSegments = .ok frontier)
    (inside : encoded ∈ encodedSegments) : ∃ segment, ArchiveSegment.decode codec sha256 encoded = .ok segment := by
  obtain ⟨segments, cursor, covers, _⟩ := covers_of_verify verified
  obtain ⟨segment, _, decoded⟩ := forall₂_left covers.decoded inside
  exact ⟨segment, decoded⟩

theorem eq_of_verify {left right : List Bytes} {frontierLeft frontierRight : ArchiveFrontier}
    (injective : Set.InjOn sha256 {bytes | bytes = spec.anchorBytes ∨ bytes ∈ left ∨ bytes ∈ right})
    (verifiedLeft : verifyArchiveChain codec sha256 spec left = .ok frontierLeft)
    (verifiedRight : verifyArchiveChain codec sha256 spec right = .ok frontierRight)
    (same : frontierLeft.segmentHash = frontierRight.segmentHash) : left = right := by
  obtain ⟨linkedLeft, tipLeft⟩ := linked_of_verify verifiedLeft
  obtain ⟨linkedRight, tipRight⟩ := linked_of_verify verifiedRight
  refine eq_of_tip_eq (fun _ _ _ named named' => named.unique named') ?_ ?_ linkedLeft linkedRight
    (tipLeft.symm.trans (same.trans tipRight))
  · exact fun first inside second inside' => injective (.inr (.inl inside)) (.inr (.inr inside'))
  · intro encoded inside collides
    have decoded : ∃ segment, decode codec sha256 encoded = .ok segment :=
      inside.elim (decoded_of_verify verifiedLeft) (decoded_of_verify verifiedRight)
    exact ne_anchorBytes spec decoded.choose_spec (injective (.inr inside) (.inl rfl) collides)

/-- Archived chains are bound to their baseline: the last hash determines every record, the
records are those of the indexes after the baseline, and segments and their bytes
determine each other. -/
theorem archive_chain_binding :
    (∀ left right frontierLeft frontierRight,
      Set.InjOn sha256 {bytes | bytes = spec.anchorBytes ∨ bytes ∈ left ∨ bytes ∈ right} →
      verifyArchiveChain codec sha256 spec left = .ok frontierLeft →
      verifyArchiveChain codec sha256 spec right = .ok frontierRight →
      frontierLeft.segmentHash = frontierRight.segmentHash →
      left = right ∧ ∃ segments, left.mapM (ArchiveSegment.decode codec sha256) = .ok segments ∧
        right.mapM (ArchiveSegment.decode codec sha256) = .ok segments) ∧
    (∀ encodedSegments frontier, verifyArchiveChain codec sha256 spec encodedSegments = .ok frontier →
      ∃ segments, encodedSegments.mapM (ArchiveSegment.decode codec sha256) = .ok segments ∧
        segments.map (fun segment => segment.record.index) =
          List.range' (spec.baselineIndex + 1) encodedSegments.length ∧
        frontier.index = spec.baselineIndex + encodedSegments.length) ∧
    (∀ segment : ArchiveSegment, segment.Fits → segment.validate codec = .ok () →
      (segment.encode codec sha256 >>= ArchiveSegment.decode codec sha256) = .ok segment) ∧
    ∀ bytes segment, ArchiveSegment.decode codec sha256 bytes = .ok segment →
      segment.encode codec sha256 = .ok bytes := by
  refine ⟨?_, ?_, ?_, fun bytes segment => encode_decode⟩
  · intro left right frontierLeft frontierRight injective verifiedLeft verifiedRight same
    obtain rfl := eq_of_verify injective verifiedLeft verifiedRight same
    obtain ⟨segments, cursor, covers, _⟩ := covers_of_verify verifiedLeft
    exact ⟨rfl, segments, mapM_eq_ok.mpr covers.decoded, mapM_eq_ok.mpr covers.decoded⟩
  · intro encodedSegments frontier verified
    obtain ⟨segments, cursor, covers, rfl⟩ := covers_of_verify verified
    have length := covers.decoded.length_eq
    exact ⟨segments, mapM_eq_ok.mpr covers.decoded, length ▸ covers.indexes, length ▸ covers.frontierIndex⟩
  · intro segment fits valid
    exact bind_eq_ok.mpr ⟨_, encode_of_validate valid,
      decode_encode fits (encode_of_validate valid)⟩

def plainHash (bytes : Bytes) : Digest :=
  ⟨toBeBytes 32 (bytes.foldl (fun hash byte => hash * 263 + byte.toNat) 7), length_toBeBytes _ _⟩

def plainSpec : ArchiveChainSpec :=
  { timeline := ⟨List.replicate 16 1, rfl⟩, baselineIndex := 4, baselineTerm := 2,
    baselineBackupSha256 := plainHash [] }

def controlSegment (index createdUnixMs : Nat) (previousHash : ArchiveHash) : ArchiveSegment :=
  { timeline := plainSpec.timeline, stateMachineCompatVersion := 1, createdUnixMs, previousHash,
    record := { index, term := 2, kind := .control, payload := [] } }

def sealedSegment (segment : ArchiveSegment) : Bytes :=
  segment.content plainHash ++ (plainHash (segment.content plainHash)).val

def firstSealed : Bytes := sealedSegment (controlSegment 5 1000 (plainHash plainSpec.anchorBytes))
def secondSealed : Bytes := sealedSegment (controlSegment 6 1001 (plainHash firstSealed))

theorem plainHash_apart : ∀ first ∈ [plainSpec.anchorBytes, firstSealed, secondSealed],
    ∀ second ∈ [plainSpec.anchorBytes, firstSealed, secondSealed],
      plainHash first = plainHash second → first = second := by
  decide +kernel

theorem archive_chain_binding_two :
    (∃ segments, [firstSealed, secondSealed].mapM (ArchiveSegment.decode plainCodec plainHash) = .ok segments ∧
      segments.map (fun segment => segment.record.index) = [5, 6]) ∧
    (∃ segments, [firstSealed, secondSealed].mapM (ArchiveSegment.decode plainCodec plainHash) = .ok segments) ∧
    ((controlSegment 5 1000 (plainHash plainSpec.anchorBytes)).encode plainCodec plainHash >>=
      ArchiveSegment.decode plainCodec plainHash) = .ok (controlSegment 5 1000 (plainHash plainSpec.anchorBytes)) := by
  have verified : verifyArchiveChain plainCodec plainHash plainSpec [firstSealed, secondSealed] =
      .ok { index := 6, term := 2, segmentHash := plainHash secondSealed, segments := 2 } := by
    decide +kernel
  have injective : Set.InjOn plainHash {bytes | bytes = plainSpec.anchorBytes ∨
      bytes ∈ [firstSealed, secondSealed] ∨ bytes ∈ [firstSealed, secondSealed]} := by
    intro first inside second inside'
    exact plainHash_apart first (by simpa using inside) second (by simpa using inside')
  obtain ⟨bound, covered, decoded, _⟩ := @archive_chain_binding plainCodec plainHash plainSpec
  obtain ⟨segments, all, indexes, _⟩ := covered _ _ verified
  obtain ⟨_, segments', all', _⟩ := bound _ _ _ _ injective verified verified rfl
  exact ⟨⟨segments, all, indexes⟩, ⟨segments', all'⟩,
    decoded _ ⟨by decide, by decide, by decide⟩ (by decide +kernel)⟩

end Chains

end Neuralbase.Pitr
