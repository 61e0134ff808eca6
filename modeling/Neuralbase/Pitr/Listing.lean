import Neuralbase.Library.Decimal
import Neuralbase.Pitr.Classify
import Neuralbase.Pitr.Writer
import Neuralbase.Library.Machine

namespace Neuralbase.Pitr

open Neuralbase.Library
open Neuralbase.Consensus (Bytes)
open Neuralbase.Replicated
open PitrArchiveError

/-! The segments directory by its file names (`list_segment_files_with_limit` of
`pitr_archive.rs`), and the agreement of `verify_chain` over its files with
`verify_archive_chain` over what the files hold. -/

structure DirEntry where
  name : String
  isFile : Bool
  bytes : Bytes

def segmentSuffix (encrypted : Bool) : String := if encrypted then ".nbpe" else ".nbar"

def stripSuffix (suffix name : List Char) : Option (List Char) :=
  if suffix <:+ name then some (name.take (name.length - suffix.length)) else none

/-- What a file name says: twenty digits before the suffix, that fit 64 bits. -/
def segmentIndex (encrypted : Bool) (name : String) : Option Nat :=
  (stripSuffix (segmentSuffix encrypted).toList name.toList).bind fun stem =>
    if stem.length ≠ 20 ∨ ¬ stem.all Char.isDigit then none else parseNat 64 (String.ofList stem)

def DirEntry.read (encrypted : Bool) (entry : DirEntry) : Except PitrArchiveError SegmentFile :=
  if ¬ entry.isFile then .error (unexpectedArchiveEntry entry.name)
  else
    match segmentIndex encrypted entry.name with
    | none => .error (unexpectedArchiveEntry entry.name)
    | some index => .ok { index, bytes := entry.bytes }

/-- One round of the loop of `list_segment_files_with_limit`. -/
def listEntry (encrypted : Bool) (limit : Nat) (out : List SegmentFile) (entry : DirEntry) :
    Except PitrArchiveError (List SegmentFile) := do
  let file ← entry.read encrypted
  if limit ≤ out.length then throw (tooManySegments limit)
  pure (out ++ [file])

def listSegmentFilesWithLimit (encrypted : Bool) (limit : Nat) (entries : List DirEntry) :
    Except PitrArchiveError (List SegmentFile) := do
  let out ← entries.foldlM (listEntry encrypted limit) []
  pure (out.insertionSort fun left right => left.index ≤ right.index)

/-- `verify_chain` over the entries of the segments directory. -/
def ArchiveStream.verifyChainOf (stream : ArchiveStream) (entries : List DirEntry) :
    Except PitrArchiveError ArchiveFrontier := do
  let expectedIndex ← ArchiveStream.nextIndex stream.metadata.baselineIndex
  let previousHash ← (stream.metadata.chainSpec.baselineAnchor stream.sha256).mapError .codec
  let listed ← listSegmentFilesWithLimit stream.metadata.encrypted maxArchiveSegmentFiles entries
  let start : ChainCursor :=
    { expectedIndex, previousHash
      frontier := { index := stream.metadata.baselineIndex, term := stream.metadata.baselineTerm,
                    segmentHash := previousHash, segments := 0 } }
  let cursor ← listed.foldlM stream.verifyFile start
  pure cursor.frontier

def byName (entries : List DirEntry) : List DirEntry :=
  entries.insertionSort fun left right => left.name.toList ≤ right.name.toList

def DirEntry.WellNamed (encrypted : Bool) (entry : DirEntry) : Prop :=
  entry.isFile = true ∧ (segmentIndex encrypted entry.name).isSome = true

instance (encrypted : Bool) (entry : DirEntry) : Decidable (entry.WellNamed encrypted) :=
  inferInstanceAs (Decidable (_ ∧ _))

section Names

variable {encrypted : Bool} {entry left right : DirEntry} {name : String} {index : Nat} {entries : List DirEntry}

def DirEntry.file (encrypted : Bool) (entry : DirEntry) : SegmentFile :=
  { index := (segmentIndex encrypted entry.name).getD 0, bytes := entry.bytes }

theorem DirEntry.WellNamed.read (named : entry.WellNamed encrypted) : entry.read encrypted = .ok (entry.file encrypted) := by
  obtain ⟨index, found⟩ := Option.isSome_iff_exists.mp named.2
  rw [DirEntry.read, if_neg (not_not.mpr named.1), DirEntry.file, found]
  rfl

theorem segmentIndex_eq_some (found : segmentIndex encrypted name = some index) :
    ∃ stem, name.toList = stem ++ (segmentSuffix encrypted).toList ∧ stem.length = 20 ∧ stem.all Char.isDigit = true ∧
      index = Nat.ofDigitChars 10 stem 0 := by
  obtain ⟨stem, stripped, parsed⟩ := Option.bind_eq_some_iff.mp found
  unfold stripSuffix at stripped
  split_ifs at stripped with ends
  split_ifs at parsed with digits
  obtain ⟨front, same⟩ := ends
  have front_eq : stem = front := by
    rw [← Option.some.inj stripped, ← same, List.length_append, Nat.add_sub_cancel, List.take_left]
  subst front_eq
  obtain ⟨length, digits⟩ := not_or.mp digits
  exact ⟨stem, same.symm, not_not.mp length, not_not.mp digits, parseNat_ofList (not_not.mp digits) parsed⟩

theorem name_le_iff (named : left.WellNamed encrypted) (named' : right.WellNamed encrypted) :
    left.name.toList ≤ right.name.toList ↔ (left.file encrypted).index ≤ (right.file encrypted).index := by
  obtain ⟨index, found⟩ := Option.isSome_iff_exists.mp named.2
  obtain ⟨index', found'⟩ := Option.isSome_iff_exists.mp named'.2
  obtain ⟨stem, name, length, digits, value⟩ := segmentIndex_eq_some found
  obtain ⟨stem', name', length', digits', value'⟩ := segmentIndex_eq_some found'
  simp only [DirEntry.file, found, found', Option.getD_some]
  rw [← not_lt, ← not_lt, name, name', append_lt_append_iff (length'.trans length.symm),
    digits_lt_iff digits' digits (length'.trans length.symm), value, value']

theorem foldlM_listEntry {limit : Nat} {out : List SegmentFile} (named : ∀ entry ∈ entries, entry.WellNamed encrypted)
    (few : out.length + entries.length ≤ limit) :
    entries.foldlM (listEntry encrypted limit) out = .ok (out ++ entries.map (DirEntry.file encrypted)) := by
  induction entries generalizing out with
  | nil => simp [pure, Except.pure]
  | cons entry rest induction =>
    obtain ⟨first, others⟩ := List.forall_mem_cons.mp named
    have listed : listEntry encrypted limit out entry = .ok (out ++ [entry.file encrypted]) :=
      bind_eq_ok.mpr ⟨_, first.read, guard_eq_ok.mpr ⟨by simp at few; omega, rfl⟩⟩
    have later := @induction (out ++ [entry.file encrypted]) others (by simp at few ⊢; omega)
    rw [List.append_assoc] at later
    exact bind_eq_ok.mpr ⟨_, listed, later⟩

theorem listSegmentFilesWithLimit_eq {limit : Nat} (named : ∀ entry ∈ entries, entry.WellNamed encrypted)
    (few : entries.length ≤ limit) :
    listSegmentFilesWithLimit encrypted limit entries = .ok ((byName entries).map (DirEntry.file encrypted)) := by
  refine bind_eq_ok.mpr ⟨_, foldlM_listEntry named (by simpa using few), pure_eq_ok.mpr ?_⟩
  refine (List.map_insertionSort _ _ _ _ fun left inside right inside' => ?_).symm
  exact name_le_iff (named left inside) (named right inside')

end Names

def SegmentCipher.Bounded (cipher : SegmentCipher) : Prop :=
  ∀ bytes plain, cipher.decryptSegment bytes = .ok plain → plain.length ≤ maxPlaintextSegmentBytes →
    bytes.length ≤ cipher.maxSegmentBytes

def ArchiveStream.contents (stream : ArchiveStream) (entries : List DirEntry) : Except String (List Bytes) :=
  entries.mapM fun entry => stream.cipher.decryptSegment entry.bytes

def ArchiveStream.NamedAfterRecord (stream : ArchiveStream) (file : SegmentFile) : Prop :=
  ∀ segment, stream.readSegmentPath file.bytes = .ok segment → segment.record.index = file.index

section Agreement

variable {stream : ArchiveStream} {file : SegmentFile} {files : List SegmentFile} {cursor cursor' : ChainCursor}
  {segment : ArchiveSegment} {bytes : Bytes}

theorem readSegmentPath_iff (bounded : stream.cipher.Bounded) : stream.readSegmentPath bytes = .ok segment ↔
    ∃ plain, stream.cipher.decryptSegment bytes = .ok plain ∧
      ArchiveSegment.decode stream.codec stream.sha256 plain = .ok segment := by
  constructor
  · intro read
    obtain ⟨_, read⟩ := guard_eq_ok.mp read
    obtain ⟨plain, decrypted, read⟩ := bind_eq_ok.mp read
    exact ⟨plain, mapError_eq_ok.mp decrypted, mapError_eq_ok.mp read⟩
  · rintro ⟨plain, decrypted, decoded⟩
    have short := bounded bytes plain decrypted (length_of_encode (ArchiveSegment.encode_decode decoded))
    exact guard_eq_ok.mpr ⟨not_lt.mpr short, bind_eq_ok.mpr
      ⟨plain, mapError_eq_ok.mpr decrypted, mapError_eq_ok.mpr decoded⟩⟩

theorem namedAfterRecord (reads : stream.readSegmentPath file.bytes = .ok segment)
    (index : segment.record.index = file.index) : stream.NamedAfterRecord file := by
  intro other read
  rw [reads] at read
  exact Except.ok.inj read ▸ index

theorem verifyFile_iff (bounded : stream.cipher.Bounded) : stream.verifyFile cursor file = .ok cursor' ↔
    ∃ plain, stream.cipher.decryptSegment file.bytes = .ok plain ∧
      cursor.advance stream.codec stream.sha256 stream.metadata.chainSpec plain = .ok cursor' ∧
      stream.NamedAfterRecord file := by
  constructor
  · intro verified
    obtain ⟨below, verified⟩ := guard_eq_ok.mp verified
    obtain ⟨above, verified⟩ := guard_eq_ok.mp verified
    obtain ⟨segment, reads, verified⟩ := bind_eq_ok.mp verified
    obtain ⟨timeline, verified⟩ := guard_eq_ok.mp verified
    obtain ⟨named, verified⟩ := guard_eq_ok.mp verified
    obtain ⟨previous, verified⟩ := guard_eq_ok.mp verified
    obtain ⟨hash, hashed, verified⟩ := bind_eq_ok.mp verified
    obtain ⟨next, incremented, verified⟩ := bind_eq_ok.mp verified
    obtain ⟨fits, rfl⟩ := ArchiveStream.nextIndex_eq_ok.mp incremented
    obtain ⟨plain, decrypted, decoded⟩ := (readSegmentPath_iff bounded).mp reads
    have hash_eq : hash = stream.sha256 plain := by
      have known := mapError_eq_ok.mp hashed
      rw [ArchiveSegment.hash_of_decode decoded] at known
      exact (Except.ok.inj known).symm
    have index : segment.record.index = file.index := not_not.mp named
    refine ⟨plain, decrypted, advance_eq_ok.mpr ⟨segment, ?_⟩, namedAfterRecord reads index⟩
    exact { decoded, timeline := not_not.mp timeline, index := by omega, previous := not_not.mp previous,
            bounded := fits, result := by rw [← pure_eq_ok.mp verified, hash_eq, index] }
  · rintro ⟨plain, decrypted, advanced, named⟩
    obtain ⟨segment, advances⟩ := advance_eq_ok.mp advanced
    have reads := (readSegmentPath_iff bounded).mpr ⟨plain, decrypted, advances.decoded⟩
    have index := named segment reads
    have expected : file.index = cursor.expectedIndex := index.symm.trans advances.index
    refine guard_eq_ok.mpr ⟨not_lt.mpr expected.ge, guard_eq_ok.mpr ⟨not_lt.mpr expected.le, ?_⟩⟩
    refine bind_eq_ok.mpr ⟨segment, reads, guard_eq_ok.mpr ⟨not_not.mpr advances.timeline, ?_⟩⟩
    refine guard_eq_ok.mpr ⟨not_not.mpr index, guard_eq_ok.mpr ⟨not_not.mpr advances.previous, ?_⟩⟩
    refine bind_eq_ok.mpr ⟨_, mapError_eq_ok.mpr (ArchiveSegment.hash_of_decode advances.decoded), ?_⟩
    refine bind_eq_ok.mpr ⟨_, ArchiveStream.nextIndex_eq_ok.mpr ⟨advances.bounded, rfl⟩, ?_⟩
    rw [advances.result, index]
    rfl

theorem foldlM_verifyFile_iff (bounded : stream.cipher.Bounded) :
    files.foldlM stream.verifyFile cursor = .ok cursor' ↔
      (∃ contents, List.Forall₂ (fun file plain => stream.cipher.decryptSegment file.bytes = .ok plain) files contents ∧
        contents.foldlM (ChainCursor.advance stream.codec stream.sha256 stream.metadata.chainSpec) cursor = .ok cursor') ∧
      ∀ file ∈ files, stream.NamedAfterRecord file := by
  induction files generalizing cursor with
  | nil =>
    constructor
    · intro verified
      cases pure_eq_ok.mp verified
      exact ⟨⟨[], .nil, rfl⟩, nofun⟩
    · rintro ⟨⟨contents, decrypted, verified⟩, _⟩
      cases decrypted
      cases pure_eq_ok.mp verified
      rfl
  | cons file rest induction =>
    rw [List.foldlM_cons, bind_eq_ok, List.forall_mem_cons]
    constructor
    · rintro ⟨middle, first, others⟩
      obtain ⟨plain, decrypted, advanced, named⟩ := (verifyFile_iff bounded).mp first
      obtain ⟨⟨contents, hold, verified⟩, later⟩ := induction.mp others
      exact ⟨⟨plain :: contents, .cons decrypted hold, bind_eq_ok.mpr ⟨middle, advanced, verified⟩⟩, named, later⟩
    · rintro ⟨⟨contents, hold, verified⟩, named, later⟩
      cases hold with
      | cons decrypted hold =>
        obtain ⟨middle, advanced, verified⟩ := bind_eq_ok.mp verified
        exact ⟨middle, (verifyFile_iff bounded).mpr ⟨_, decrypted, advanced, named⟩,
          induction.mpr ⟨⟨_, hold, verified⟩, later⟩⟩

theorem perm_byName (entries : List DirEntry) : (byName entries).Perm entries := List.perm_insertionSort _ _

/-- `verify_chain` accepts a directory exactly when `verify_archive_chain` accepts the contents of
its files in the order of their names, and every file has the name of its record. -/
theorem verify_chain_agrees {entries : List DirEntry} {frontier : ArchiveFrontier}
    (valid : stream.metadata.validate = .ok ()) (bounded : stream.cipher.Bounded)
    (named : ∀ entry ∈ entries, entry.WellNamed stream.metadata.encrypted)
    (few : entries.length ≤ maxArchiveSegmentFiles) : stream.verifyChainOf entries = .ok frontier ↔
      (∃ contents, stream.contents (byName entries) = .ok contents ∧
        verifyArchiveChain stream.codec stream.sha256 stream.metadata.chainSpec contents = .ok frontier) ∧
      ∀ entry ∈ entries, stream.NamedAfterRecord (entry.file stream.metadata.encrypted) := by
  have specified := spec_of_validate valid
  have listed := listSegmentFilesWithLimit_eq named few
  have loops := fun cursor cursor' => @foldlM_verifyFile_iff stream
    ((byName entries).map (DirEntry.file stream.metadata.encrypted)) cursor cursor' bounded
  simp only [List.forall₂_map_left_iff, List.forall_mem_map] at loops
  have members : ∀ entry, entry ∈ byName entries ↔ entry ∈ entries := fun entry => (perm_byName entries).mem_iff
  constructor
  · intro verified
    obtain ⟨expected, next, verified⟩ := bind_eq_ok.mp verified
    obtain ⟨anchor, anchored, verified⟩ := bind_eq_ok.mp verified
    obtain ⟨files, found, verified⟩ := bind_eq_ok.mp verified
    rw [listed] at found
    cases found
    obtain ⟨cursor, looped, reached⟩ := bind_eq_ok.mp verified
    cases pure_eq_ok.mp reached
    obtain ⟨fits, rfl⟩ := ArchiveStream.nextIndex_eq_ok.mp next
    obtain ⟨⟨contents, decrypted, advanced⟩, names⟩ := (loops _ _).mp looped
    refine ⟨⟨contents, mapM_eq_ok.mpr decrypted, ?_⟩, fun entry inside => names entry ((members entry).mpr inside)⟩
    have started : ChainCursor.start stream.sha256 stream.metadata.chainSpec = .ok _ :=
      check_eq_ok.mpr ⟨specified, bind_eq_ok.mpr ⟨_, nextIndex_eq_ok.mpr ⟨fits, rfl⟩,
        bind_eq_ok.mpr ⟨anchor, mapError_eq_ok.mp anchored, rfl⟩⟩⟩
    exact bind_eq_ok.mpr ⟨_, started, bind_eq_ok.mpr ⟨cursor, advanced, rfl⟩⟩
  · rintro ⟨⟨contents, decrypted, verified⟩, names⟩
    obtain ⟨start, started, verified⟩ := bind_eq_ok.mp verified
    obtain ⟨cursor, advanced, reached⟩ := bind_eq_ok.mp verified
    cases pure_eq_ok.mp reached
    obtain ⟨_, fits, rfl⟩ := start_eq_ok started
    have anchored : stream.metadata.chainSpec.baselineAnchor stream.sha256 = .ok stream.anchor :=
      check_eq_ok.mpr ⟨specified, rfl⟩
    refine bind_eq_ok.mpr ⟨_, ArchiveStream.nextIndex_eq_ok.mpr ⟨fits, rfl⟩, ?_⟩
    refine bind_eq_ok.mpr ⟨_, mapError_eq_ok.mpr anchored, bind_eq_ok.mpr ⟨_, listed, ?_⟩⟩
    refine bind_eq_ok.mpr ⟨cursor, (loops _ _).mpr ⟨⟨contents, mapM_eq_ok.mp decrypted, advanced⟩, ?_⟩, rfl⟩
    exact fun entry inside => names entry ((members entry).mp inside)

end Agreement

section Directories

def twoEntries : List DirEntry :=
  [{ name := "00000000000000000006.nbar", isFile := true, bytes := secondSealed },
   { name := "00000000000000000005.nbar", isFile := true, bytes := firstSealed }]

theorem plaintext_bounded : plaintext.Bounded := by
  rintro bytes _ ⟨⟩ short
  exact short

theorem verify_chain_agrees_two :
    plainStream.verifyChainOf twoEntries =
      .ok { index := 6, term := 2, segmentHash := plainHash secondSealed, segments := 2 } := by
  refine (verify_chain_agrees (by decide +kernel) plaintext_bounded (by decide +kernel) (by decide)).mpr ⟨?_, ?_⟩
  · exact ⟨[firstSealed, secondSealed], by decide +kernel, by decide +kernel⟩
  · refine List.forall_mem_cons.mpr ⟨?_, List.forall_mem_singleton.mpr ?_⟩
    · exact @namedAfterRecord _ _ (controlSegment 6 1001 (plainHash firstSealed)) (by decide +kernel) rfl
    · exact @namedAfterRecord _ _ (controlSegment 5 1000 (plainHash plainSpec.anchorBytes)) (by decide +kernel) rfl

def misnamedEntries : List DirEntry :=
  [{ name := "00000000000000000006.nbar", isFile := true, bytes := firstSealed }]

theorem misnamed_refused :
    plainStream.metadata.validate = .ok () ∧ (∀ entry ∈ misnamedEntries, entry.WellNamed plainStream.metadata.encrypted) ∧
      plainStream.contents (byName misnamedEntries) = .ok [firstSealed] ∧
      verifyArchiveChain plainStream.codec plainStream.sha256 plainStream.metadata.chainSpec [firstSealed] =
        .ok { index := 5, term := 2, segmentHash := plainHash firstSealed, segments := 1 } ∧
      plainStream.verifyChainOf misnamedEntries = .error (.gap 5 6) := by
  refine ⟨by decide +kernel, by decide +kernel, by decide +kernel, by decide +kernel, by decide +kernel⟩

end Directories

end Neuralbase.Pitr
