import Neuralbase.Library.Machine
import Neuralbase.Pitr.Writer

namespace Neuralbase.Pitr

open Neuralbase.Library Neuralbase.Replicated

/-! Retiring an archive stream (`pitr_retention.rs`) while another writer still appends to it.
Every call on the file system is a step of its own.  A writer names files by the path of the
archive, so none of its calls finds anything once the directory has been renamed. -/

section Model

structure ArchiveStatus where
  metadata : ArchiveStreamMetadata
  frontier : ArchiveFrontier
deriving DecidableEq

inductive PitrRetentionError where
  | wrongParentTimeline
  | replacementBoundaryMismatch (expected : Nat) (branch : Option Nat) (baseline : Nat)
  | replacementTermMismatch (expected actual : Nat)
  | timelineNotRotated
deriving DecidableEq

def validateReplacement (parent replacement : ArchiveStatus) : Except PitrRetentionError Unit :=
  if replacement.metadata.parentTimeline ≠ some parent.metadata.timeline then .error .wrongParentTimeline
  else if replacement.metadata.branchIndex ≠ some parent.frontier.index ∨
      replacement.metadata.baselineIndex ≠ parent.frontier.index then
    .error (.replacementBoundaryMismatch parent.frontier.index replacement.metadata.branchIndex
      replacement.metadata.baselineIndex)
  else if replacement.metadata.baselineTerm ≠ parent.frontier.term then
    .error (.replacementTermMismatch parent.frontier.term replacement.metadata.baselineTerm)
  else if replacement.metadata.timeline = parent.metadata.timeline then .error .timelineNotRotated
  else .ok ()

/-- A published segment, by the name of its file and the term of its record. -/
structure RetainedSegment where
  index : Nat
  term : Nat
deriving DecidableEq

/-- Where a late writer is in `publish_segment`. -/
inductive LatePhase where
  | idle
  | checked (segment : RetainedSegment)
  | staged (segment : RetainedSegment)
  | verified (segment : RetainedSegment)
  | linked (segment : RetainedSegment)
  | fenced (segment : RetainedSegment)
  | unstaged (segment : RetainedSegment)
deriving DecidableEq

/-- The segment that a writer has linked and not yet acknowledged. -/
def LatePhase.published : LatePhase → Option RetainedSegment
  | .linked segment | .fenced segment | .unstaged segment => some segment
  | .idle | .checked _ | .staged _ | .verified _ => none

/-- Where `retire_replaced_stream` is; `removing` lasts until every segment is gone. -/
inductive RetirePhase where
  | idle
  | renamed
  | synced
  | stagingChecked
  | removing
  | removed
  | done
  | failed
  | crashed
deriving DecidableEq

structure RetentionSystem where
  /-- The directory is still at the path of the archive. -/
  inPlace : Bool
  segments : List RetainedSegment
  staging : List (Nat × RetainedSegment)
  writers : Nat → LatePhase
  acknowledged : List RetainedSegment
  retire : RetirePhase
  deleted : List RetainedSegment

/-- The flag `succeeds` is the outcome of the step's system call, apart from the path;
`same` is the answer of `same_logical_segment`. -/
inductive RetentionAction where
  | append (writer : Nat) (segment : RetainedSegment) (same : Bool)
  | proceed (writer : Nat) (succeeds same : Bool)
  | crash (writer : Nat)
  | retire (succeeds : Bool)
  | removeSegment (segment : RetainedSegment)
  | retireCrash
deriving DecidableEq

namespace RetentionSystem

/-- Every segment that was ever published. -/
def history (s : RetentionSystem) : List RetainedSegment :=
  s.segments ++ s.deleted

def setWriter (s : RetentionSystem) (writer : Nat) (phase : LatePhase) : RetentionSystem :=
  { s with writers := Function.update s.writers writer phase }

/-- After an error the staged file is removed, if its path still leads to it. -/
def abandon (s : RetentionSystem) (writer : Nat) (segment : RetainedSegment) : RetentionSystem :=
  { s.setWriter writer .idle with
    staging := if s.inPlace then s.staging.erase (writer, segment) else s.staging }

def acknowledge (s : RetentionSystem) (writer : Nat) (segment : RetainedSegment) : RetentionSystem :=
  { s.setWriter writer .idle with acknowledged := segment :: s.acknowledged }

def occupied (s : RetentionSystem) (index : Nat) : Bool :=
  s.segments.any fun segment => segment.index == index

/-- `final_path.exists()`, and the answer for a path that is taken already. -/
def beginAppend (s : RetentionSystem) (writer : Nat) (segment : RetainedSegment) (same : Bool) :
    RetentionSystem :=
  if s.inPlace && s.occupied segment.index then
    if segment ∈ s.segments ∧ same = true then s.acknowledge writer segment else s
  else s.setWriter writer (.checked segment)

/-- `hard_link`, which never replaces a file. -/
def linkSegment (s : RetentionSystem) (writer : Nat) (segment : RetainedSegment) (same : Bool) :
    RetentionSystem :=
  if s.occupied segment.index then
    if segment ∈ s.segments ∧ same = true then s.setWriter writer (.linked segment)
    else s.abandon writer segment
  else { s.setWriter writer (.linked segment) with segments := segment :: s.segments }

/-- The call that comes after `phase`, when it finds its path and succeeds. -/
def publishStep (s : RetentionSystem) (writer : Nat) (same : Bool) : LatePhase → RetentionSystem
  | .idle => s
  | .checked segment =>
    { s.setWriter writer (.staged segment) with staging := (writer, segment) :: s.staging }
  | .staged segment => s.setWriter writer (.verified segment)
  | .verified segment => s.linkSegment writer segment same
  | .linked segment => s.setWriter writer (.fenced segment)
  | .fenced segment =>
    { s.setWriter writer (.unstaged segment) with staging := s.staging.erase (writer, segment) }
  | .unstaged segment => s.acknowledge writer segment

def proceed (s : RetentionSystem) (writer : Nat) (succeeds same : Bool) : RetentionSystem :=
  match s.writers writer with
  | .idle => s
  | .checked segment | .staged segment | .verified segment | .linked segment | .fenced segment
  | .unstaged segment =>
    if s.inPlace && succeeds then s.publishStep writer same (s.writers writer)
    else s.abandon writer segment

/-- The sequence of file names that `verify_moved_stream` asks for. -/
def ExactSegments (parent : ArchiveStatus) (segments : List RetainedSegment) : Prop :=
  let indexes := (segments.map RetainedSegment.index).insertionSort (· ≤ ·)
  indexes.length = parent.frontier.segments ∧
    indexes = List.range' (parent.metadata.baselineIndex + 1) indexes.length ∧
    indexes.getLast?.getD parent.metadata.baselineIndex = parent.frontier.index

instance (parent : ArchiveStatus) (segments : List RetainedSegment) :
    Decidable (ExactSegments parent segments) :=
  inferInstanceAs (Decidable (_ ∧ _ ∧ _))

def retireStep (parent replacement : ArchiveStatus) (s : RetentionSystem) (succeeds : Bool) :
    Option RetentionSystem :=
  if succeeds = false then
    if s.retire = .done ∨ s.retire = .failed ∨ s.retire = .crashed then none
    else some { s with retire := .failed }
  else
    match s.retire with
    | .idle =>
      if validateReplacement parent replacement = .ok () then
        some { s with inPlace := false, retire := .renamed }
      else some { s with retire := .failed }
    | .renamed => some { s with retire := .synced }
    | .synced => some { s with retire := if s.staging = [] then .stagingChecked else .failed }
    | .stagingChecked =>
      some { s with retire := if ExactSegments parent s.segments then .removing else .failed }
    | .removing => if s.segments = [] then some { s with retire := .removed } else none
    | .removed => some { s with retire := .done }
    | .done | .failed | .crashed => none

def step (parent replacement : ArchiveStatus) (s : RetentionSystem) :
    RetentionAction → Option RetentionSystem
  | .append writer segment same =>
    if s.writers writer = .idle then some (s.beginAppend writer segment same) else none
  | .proceed writer succeeds same => some (s.proceed writer succeeds same)
  | .crash writer => some (s.setWriter writer .idle)
  | .retire succeeds => s.retireStep parent replacement succeeds
  | .removeSegment segment =>
    if s.retire = .removing ∧ segment ∈ s.segments then
      some { s with segments := s.segments.erase segment, deleted := segment :: s.deleted }
    else none
  | .retireCrash => some { s with retire := .crashed }

/-- The parent's writer has read its frontier off the directory, at some earlier time. -/
def Reads (parent : ArchiveStatus) (segments : List RetainedSegment) : Prop :=
  parent.frontier.segments = 0 ∨ ⟨parent.frontier.index, parent.frontier.term⟩ ∈ segments

/-- An archive nobody has begun to retire. -/
structure Ready (parent : ArchiveStatus) (s : RetentionSystem) : Prop where
  inPlace : s.inPlace = true
  retire : s.retire = .idle
  deleted : s.deleted = []
  writers : ∀ writer, s.writers writer = .idle
  acknowledged : ∀ segment ∈ s.acknowledged, segment ∈ s.segments
  status : Reads parent s.segments

/-- `(index, term)` is the last record of a stream. -/
def FinalFrontier (segments : List RetainedSegment) (index term : Nat) : Prop :=
  ⟨index, term⟩ ∈ segments ∧ ∀ segment ∈ segments, segment.index ≤ index

/-- Neither an error nor a crash ends the retirement once it removes files. -/
def RemovalCompletes (s : RetentionSystem) (action : RetentionAction) : Prop :=
  (s.retire = .removing ∨ s.retire = .removed ∨ s.retire = .done) →
    action ≠ .retire false ∧ action ≠ .retireCrash

instance (s : RetentionSystem) (action : RetentionAction) : Decidable (RemovalCompletes s action) :=
  inferInstanceAs (Decidable (_ → _))

end RetentionSystem

end Model

section Writers

namespace RetentionSystem

variable {s next : RetentionSystem} {writer : Nat} {segment : RetainedSegment} {phase : LatePhase}
  {succeeds same : Bool}

/-- All that a step of a writer can do to the archive. -/
structure WriterEffect (s next : RetentionSystem) : Prop where
  inPlace : next.inPlace = s.inPlace
  retire : next.retire = s.retire
  deleted : next.deleted = s.deleted
  segments : next.segments = s.segments ∨
    s.inPlace = true ∧ ∃ segment, next.segments = segment :: s.segments
  acknowledged : ∀ segment ∈ next.acknowledged, segment ∈ s.acknowledged ∨ segment ∈ s.segments ∨
    ∃ writer, (s.writers writer).published = some segment
  published : ∀ writer segment, (next.writers writer).published = some segment →
    (s.writers writer).published = some segment ∨ segment ∈ next.segments

theorem published_setWriter {other : Nat}
    (published : ((s.setWriter writer phase).writers other).published = some segment) :
    (s.writers other).published = some segment ∨ other = writer ∧ phase.published = some segment := by
  simp only [setWriter] at published
  by_cases same : other = writer
  · subst same
    rw [Function.update_self] at published
    exact .inr ⟨rfl, published⟩
  · rw [Function.update_of_ne same] at published
    exact .inl published

theorem WriterEffect.refl : WriterEffect s s :=
  ⟨rfl, rfl, rfl, .inl rfl, fun _ inside => .inl inside, fun _ _ published => .inl published⟩

/-- A writer's own phase changes, and at most its staged file. -/
theorem WriterEffect.move {staging : List (Nat × RetainedSegment)}
    (justified : ∀ segment, phase.published = some segment →
      (s.writers writer).published = some segment ∨ segment ∈ s.segments) :
    WriterEffect s { s.setWriter writer phase with staging := staging } where
  inPlace := rfl
  retire := rfl
  deleted := rfl
  segments := .inl rfl
  acknowledged := fun _ inside => .inl inside
  published := by
    intro other segment published
    rcases published_setWriter published with old | ⟨rfl, reached⟩
    · exact .inl old
    · exact justified segment reached

theorem WriterEffect.setWriter (justified : ∀ segment, phase.published = some segment →
    (s.writers writer).published = some segment ∨ segment ∈ s.segments) : WriterEffect s (s.setWriter writer phase) :=
  show WriterEffect s { s.setWriter writer phase with staging := s.staging } from .move justified

theorem abandon_effect : WriterEffect s (s.abandon writer segment) :=
  WriterEffect.move (by intro _ published; cases published)

theorem acknowledge_effect (published : (s.writers writer).published = some segment ∨ segment ∈ s.segments) :
    WriterEffect s (s.acknowledge writer segment) := by
  have moved : WriterEffect s (s.setWriter writer .idle) :=
    WriterEffect.setWriter (by intro _ published; cases published)
  refine { moved with acknowledged := ?_ }
  intro other inside
  rcases List.mem_cons.mp inside with rfl | inside
  · rcases published with published | present
    · exact .inr (.inr ⟨writer, published⟩)
    · exact .inr (.inl present)
  · exact .inl inside

theorem beginAppend_effect : WriterEffect s (s.beginAppend writer segment same) := by
  unfold beginAppend
  split
  · split
    · rename_i present
      exact acknowledge_effect (.inr present.1)
    · exact WriterEffect.refl
  · exact WriterEffect.setWriter (by intro _ published; cases published)

theorem linkSegment_effect (inPlace : s.inPlace = true) : WriterEffect s (s.linkSegment writer segment same) := by
  unfold linkSegment
  split
  · split
    · rename_i present
      refine WriterEffect.setWriter fun other published => .inr ?_
      cases published
      exact present.1
    · exact abandon_effect
  · refine ⟨rfl, rfl, rfl, .inr ⟨inPlace, segment, rfl⟩, fun _ inside => .inl inside, ?_⟩
    intro other old published
    rcases published_setWriter published with old | ⟨_, reached⟩
    · exact .inl old
    · cases reached
      exact .inr List.mem_cons_self

theorem publishStep_effect (inPlace : s.inPlace = true) (current : s.writers writer = phase) :
    WriterEffect s (s.publishStep writer same phase) := by
  cases phase with
  | idle => exact WriterEffect.refl
  | checked segment => exact WriterEffect.move (by intro _ published; cases published)
  | staged segment => exact WriterEffect.setWriter (by intro _ published; cases published)
  | verified segment => exact linkSegment_effect inPlace
  | linked segment => exact WriterEffect.setWriter fun _ published => .inl (current ▸ published)
  | fenced segment => exact WriterEffect.move fun _ published => .inl (current ▸ published)
  | unstaged segment => exact acknowledge_effect (.inl (by rw [current]; rfl))

theorem proceed_effect : WriterEffect s (s.proceed writer succeeds same) := by
  unfold proceed
  split
  · exact WriterEffect.refl
  all_goals
    split
    · rename_i works
      exact publishStep_effect (Bool.and_eq_true_iff.mp works).1 rfl
    · exact abandon_effect

end RetentionSystem

end Writers

section Safety

namespace RetentionSystem

variable {parent replacement : ArchiveStatus} {s next final : RetentionSystem} {action : RetentionAction}
  {schedule : List RetentionAction}

theorem validateReplacement_ok (valid : validateReplacement parent replacement = .ok ()) :
    replacement.metadata.baselineIndex = parent.frontier.index ∧
      replacement.metadata.baselineTerm = parent.frontier.term := by
  unfold validateReplacement at valid
  split_ifs at valid with _ boundary term _
  exact ⟨not_not.mp (not_or.mp boundary).2, not_not.mp term⟩

theorem ExactSegments.index_le {segments : List RetainedSegment} (exact_ : ExactSegments parent segments) :
    ∀ segment ∈ segments, segment.index ≤ parent.frontier.index := by
  obtain ⟨_, consecutive, last⟩ := exact_
  intro segment inside
  generalize ((segments.map RetainedSegment.index).insertionSort (· ≤ ·)).length = count at consecutive
  have listed : segment.index ∈ List.range' (parent.metadata.baselineIndex + 1) count := by
    rw [← consecutive]
    exact (List.mem_insertionSort (· ≤ ·)).mpr (List.mem_map_of_mem inside)
  rw [consecutive, List.getLast?_range'] at last
  have bounds := List.mem_range'_1.mp listed
  have positive : count ≠ 0 := by omega
  simp only [if_neg positive, Option.getD_some] at last
  omega

theorem ExactSegments.eq_nil {segments : List RetainedSegment} (exact_ : ExactSegments parent segments)
    (none_ : parent.frontier.segments = 0) : segments = [] := by
  have empty := exact_.1
  rw [none_, List.length_insertionSort, List.length_map] at empty
  exact List.length_eq_zero_iff.mp empty

/-- What has been established before the first file is removed, and stays so. -/
structure Verified (parent replacement : ArchiveStatus) (s : RetentionSystem) : Prop where
  moved : s.inPlace = false
  valid : validateReplacement parent replacement = .ok ()
  bounded : ∀ segment ∈ s.history, segment.index ≤ parent.frontier.index
  read : s.history = [] ∨ ⟨parent.frontier.index, parent.frontier.term⟩ ∈ s.history

def Moving : RetirePhase → Prop
  | .renamed | .synced | .stagingChecked => True
  | .idle | .removing | .removed | .done | .failed | .crashed => False

def Removing : RetirePhase → Prop
  | .removing | .removed | .done => True
  | .idle | .renamed | .synced | .stagingChecked | .failed | .crashed => False

structure Safe (parent replacement : ArchiveStatus) (s : RetentionSystem) : Prop where
  acknowledged : ∀ segment ∈ s.acknowledged, segment ∈ s.history
  published : ∀ writer segment, (s.writers writer).published = some segment → segment ∈ s.history
  status : Reads parent s.history
  moving : Moving s.retire → s.inPlace = false ∧ validateReplacement parent replacement = .ok ()
  removing : Removing s.retire ∨ s.deleted ≠ [] → Verified parent replacement s

theorem WriterEffect.history_subset (effect : WriterEffect s next) : s.history ⊆ next.history := by
  unfold history
  rw [effect.deleted]
  rcases effect.segments with same | ⟨_, segment, added⟩
  · rw [same]
    exact fun _ inside => inside
  · rw [added]
    exact List.subset_cons_self segment (s.segments ++ s.deleted)

/-- Once the directory has moved, no writer publishes. -/
theorem WriterEffect.history_eq (effect : WriterEffect s next) (moved : s.inPlace = false) :
    next.history = s.history := by
  rcases effect.segments with same | ⟨inPlace, _⟩
  · rw [history, same, effect.deleted, history]
  · rw [moved] at inPlace
    cases inPlace

theorem Safe.writer (safe : Safe parent replacement s) (effect : WriterEffect s next) : Safe parent replacement next where
  acknowledged := by
    intro segment inside
    rcases effect.acknowledged segment inside with old | present | ⟨writer, published⟩
    · exact effect.history_subset (safe.acknowledged segment old)
    · exact effect.history_subset (List.mem_append_left _ present)
    · exact effect.history_subset (safe.published writer segment published)
  published := by
    intro writer segment published
    rcases effect.published writer segment published with old | present
    · exact effect.history_subset (safe.published writer segment old)
    · exact List.mem_append_left _ present
  status := safe.status.imp_right fun read => effect.history_subset read
  moving := by
    rw [effect.retire, effect.inPlace]
    exact safe.moving
  removing := by
    rw [effect.retire, effect.deleted]
    intro begun
    have verified := safe.removing begun
    have same := effect.history_eq verified.moved
    exact ⟨by rw [effect.inPlace, verified.moved], verified.valid, by rw [same]; exact verified.bounded,
      by rw [same]; exact verified.read⟩

/-- A step of the retirement that leaves every file where it is. -/
theorem Safe.retire {phase : RetirePhase} (safe : Safe parent replacement s)
    (moving : Moving phase → s.inPlace = false ∧ validateReplacement parent replacement = .ok ())
    (removing : Removing phase → Verified parent replacement s) :
    Safe parent replacement { s with retire := phase } where
  acknowledged := safe.acknowledged
  published := safe.published
  status := safe.status
  moving := moving
  removing := by
    rintro (begun | deleted)
    · have verified := removing begun
      exact ⟨verified.moved, verified.valid, verified.bounded, verified.read⟩
    · have verified := safe.removing (.inr deleted)
      exact ⟨verified.moved, verified.valid, verified.bounded, verified.read⟩

theorem Safe.stop {phase : RetirePhase} (safe : Safe parent replacement s) (notMoving : ¬Moving phase)
    (notRemoving : ¬Removing phase) : Safe parent replacement { s with retire := phase } :=
  safe.retire (fun moving => (notMoving moving).elim) fun removing => (notRemoving removing).elim

/-- The rename: nothing has been deleted, for then the directory had moved before. -/
theorem Safe.rename (safe : Safe parent replacement s) (valid : validateReplacement parent replacement = .ok ()) :
    Safe parent replacement { s with inPlace := false, retire := .renamed } where
  acknowledged := safe.acknowledged
  published := safe.published
  status := safe.status
  moving := fun _ => ⟨rfl, valid⟩
  removing := by
    rintro (begun | deleted)
    · exact begun.elim
    · have verified := safe.removing (.inr deleted)
      exact ⟨rfl, valid, verified.bounded, verified.read⟩

theorem Safe.verified (safe : Safe parent replacement s) (phase : s.retire = .stagingChecked)
    (exact_ : ExactSegments parent s.segments) : Verified parent replacement s := by
  by_cases kept : s.deleted = []
  · obtain ⟨moved, valid⟩ := safe.moving (by rw [phase]; trivial)
    have same : s.history = s.segments := by rw [history, kept, List.append_nil]
    refine ⟨moved, valid, by rw [same]; exact exact_.index_le, ?_⟩
    rcases safe.status with empty | read
    · exact .inl (by rw [same]; exact exact_.eq_nil empty)
    · exact .inr read
  · exact safe.removing (.inr kept)

theorem Safe.retireStep {succeeds : Bool} (safe : Safe parent replacement s)
    (stepped : s.retireStep parent replacement succeeds = some next) : Safe parent replacement next := by
  unfold RetentionSystem.retireStep at stepped
  split at stepped
  · split at stepped
    · cases stepped
    · cases stepped
      exact safe.stop id id
  · split at stepped
    · split at stepped
      · rename_i valid
        cases stepped
        exact safe.rename valid
      · cases stepped
        exact safe.stop id id
    · rename_i phase
      cases stepped
      exact safe.retire (fun _ => safe.moving (by rw [phase]; trivial)) False.elim
    · rename_i phase
      cases stepped
      split
      · exact safe.retire (fun _ => safe.moving (by rw [phase]; trivial)) False.elim
      · exact safe.stop id id
    · rename_i phase
      cases stepped
      split
      · rename_i exact_
        exact safe.retire False.elim fun _ => safe.verified phase exact_
      · exact safe.stop id id
    · rename_i phase
      split at stepped
      · cases stepped
        exact safe.retire False.elim fun _ => safe.removing (.inl (by rw [phase]; trivial))
      · cases stepped
    · rename_i phase
      cases stepped
      exact safe.retire False.elim fun _ => safe.removing (.inl (by rw [phase]; trivial))
    all_goals cases stepped

/-- Removing a file only moves it from one part of the history to the other. -/
theorem mem_history_remove {segment other : RetainedSegment} (present : segment ∈ s.segments) :
    other ∈ RetentionSystem.history
        { s with segments := s.segments.erase segment, deleted := segment :: s.deleted } ↔
      other ∈ s.history := by
  have moved : (s.segments.erase segment ++ segment :: s.deleted).Perm (s.segments ++ s.deleted) :=
    List.perm_middle.trans (List.Perm.append_right s.deleted (List.perm_cons_erase present).symm)
  exact moved.mem_iff

theorem Safe.removeSegment {segment : RetainedSegment} (safe : Safe parent replacement s)
    (phase : s.retire = .removing) (present : segment ∈ s.segments) : Safe parent replacement
      { s with segments := s.segments.erase segment, deleted := segment :: s.deleted } where
  acknowledged := fun other inside => (mem_history_remove present).mpr (safe.acknowledged other inside)
  published := fun writer other published =>
    (mem_history_remove present).mpr (safe.published writer other published)
  status := safe.status.imp_right (mem_history_remove present).mpr
  moving := safe.moving
  removing := by
    intro _
    have verified := safe.removing (.inl (by rw [phase]; trivial))
    have old : segment ∈ s.history := List.mem_append_left _ present
    refine ⟨verified.moved, verified.valid,
      fun other inside => verified.bounded other ((mem_history_remove present).mp inside), .inr ?_⟩
    rcases verified.read with empty | read
    · rw [empty] at old
      cases old
    · exact (mem_history_remove present).mpr read

theorem Safe.step (safe : Safe parent replacement s) (stepped : s.step parent replacement action = some next) :
    Safe parent replacement next := by
  cases action with
  | append writer segment same =>
    simp only [RetentionSystem.step, Option.ite_none_right_eq_some, Option.some.injEq] at stepped
    obtain ⟨_, rfl⟩ := stepped
    exact safe.writer beginAppend_effect
  | proceed writer succeeds same =>
    cases stepped
    exact safe.writer proceed_effect
  | crash writer =>
    cases stepped
    exact safe.writer (WriterEffect.setWriter (by intro _ published; cases published))
  | retire succeeds => exact safe.retireStep stepped
  | removeSegment segment =>
    simp only [RetentionSystem.step, Option.ite_none_right_eq_some, Option.some.injEq] at stepped
    obtain ⟨⟨phase, present⟩, rfl⟩ := stepped
    exact safe.removeSegment phase present
  | retireCrash =>
    cases stepped
    exact safe.stop id id

theorem Safe.runs (safe : Safe parent replacement s)
    (ran : runs (RetentionSystem.step parent replacement) s schedule = some final) : Safe parent replacement final :=
  runs_invariant (Safe parent replacement) ran safe fun _ _ _ _ safe stepped => safe.step stepped

theorem Ready.safe (ready : Ready parent s) : Safe parent replacement s where
  acknowledged := fun segment inside => List.mem_append_left _ (ready.acknowledged segment inside)
  published := by
    intro writer segment published
    rw [ready.writers writer] at published
    cases published
  status := ready.status.imp_right (List.mem_append_left _)
  moving := by
    rw [ready.retire]
    exact False.elim
  removing := by
    rw [ready.retire, ready.deleted]
    rintro (begun | deleted)
    · exact begun.elim
    · exact (deleted rfl).elim

end RetentionSystem

end Safety

section Outcome

namespace RetentionSystem

variable {parent replacement : ArchiveStatus} {s next final : RetentionSystem} {action : RetentionAction}
  {schedule : List RetentionAction}

theorem WriterEffect.keeps_deletions (effect : WriterEffect s next) (begun : s.deleted ≠ [] → Removing s.retire) :
    next.deleted ≠ [] → Removing next.retire := by
  rw [effect.retire, effect.deleted]
  exact begun

/-- With no failure during the removal, files are gone only while it goes on or after it is done. -/
theorem removing_step (begun : s.deleted ≠ [] → Removing s.retire) (completes : RemovalCompletes s action)
    (stepped : s.step parent replacement action = some next) : next.deleted ≠ [] → Removing next.retire := by
  cases action with
  | append writer segment same =>
    simp only [RetentionSystem.step, Option.ite_none_right_eq_some, Option.some.injEq] at stepped
    obtain ⟨_, rfl⟩ := stepped
    exact beginAppend_effect.keeps_deletions begun
  | proceed writer succeeds same =>
    cases stepped
    exact proceed_effect.keeps_deletions begun
  | crash writer =>
    cases stepped
    exact begun
  | retire succeeds =>
    simp only [RetentionSystem.step, RetentionSystem.retireStep] at stepped
    cases phase : s.retire <;> simp only [phase, RemovalCompletes, Removing] at begun completes stepped <;>
      grind [Removing]
  | removeSegment segment =>
    simp only [RetentionSystem.step, Option.ite_none_right_eq_some, Option.some.injEq] at stepped
    obtain ⟨⟨phase, _⟩, rfl⟩ := stepped
    intro _
    simp only [phase, Removing]
  | retireCrash =>
    cases stepped
    intro deleted
    have removing := begun deleted
    cases phase : s.retire <;> simp [phase, RemovalCompletes, Removing] at removing completes

/-- Over every interleaving and every crash: files are removed only when the replacement starts
at the last record the parent ever published, and so no acknowledged record above its baseline
is lost.  A retirement that fails has removed nothing, provided the removal itself does not fail. -/
theorem retirement_keeps_history (parent replacement : ArchiveStatus) (s final : RetentionSystem)
    (schedule : List RetentionAction) (ready : Ready parent s)
    (ran : runs (step parent replacement) s schedule = some final) :
    (final.deleted ≠ [] → FinalFrontier final.history replacement.metadata.baselineIndex
      replacement.metadata.baselineTerm) ∧
    (∀ segment ∈ final.acknowledged, segment ∈ final.segments ∨
      segment ∈ final.deleted ∧ segment.index ≤ replacement.metadata.baselineIndex) ∧
    (Throughout (step parent replacement) RemovalCompletes s schedule →
      final.retire = .failed ∨ final.retire = .crashed → final.deleted = []) := by
  have safe : Safe parent replacement final := ready.safe.runs ran
  refine ⟨?_, ?_, ?_⟩
  · intro deleted
    have verified := safe.removing (.inr deleted)
    obtain ⟨index, term⟩ := validateReplacement_ok verified.valid
    rw [index, term]
    rcases verified.read with empty | read
    · exact (deleted (List.append_eq_nil_iff.mp empty).2).elim
    · exact ⟨read, verified.bounded⟩
  · intro segment inside
    rcases List.mem_append.mp (safe.acknowledged segment inside) with present | gone
    · exact .inl present
    · have verified := safe.removing (.inr (List.ne_nil_of_mem gone))
      rw [(validateReplacement_ok verified.valid).1]
      exact .inr ⟨gone, verified.bounded segment (List.mem_append_right _ gone)⟩
  · intro completes ended
    have begun : final.deleted ≠ [] → Removing final.retire :=
      keeps (fun s => s.deleted ≠ [] → Removing s.retire) ran completes
        (fun deleted => (deleted ready.deleted).elim) fun _ _ _ begun completes stepped =>
          removing_step begun completes stepped
    by_contra deleted
    have removing := begun deleted
    rcases ended with phase | phase <;> rw [phase] at removing <;> exact removing

def exampleStatus (timeline : UInt8) (parentTimeline : Option TimelineId) (branchIndex : Option Nat)
    (baseline : Nat) (frontier : ArchiveFrontier) : ArchiveStatus where
  metadata :=
    { formatVersion := 1
      archiveFormatVersion := 1
      stateMachineCompatVersion := 1
      timeline := ⟨List.replicate archiveTimelineBytes timeline, by simp⟩
      parentTimeline := parentTimeline
      branchIndex := branchIndex
      baselineBackupSha256 := zeroDigest
      baselineIndex := baseline
      baselineTerm := frontier.term
      baselineMembershipGeneration := 1
      baselineMembershipConfigIndex := 1
      encrypted := false
      keyId := none }
  frontier := frontier

/-- A stream of the records 6 and 7, and one that starts where it ends. -/
def parentStatus : ArchiveStatus :=
  exampleStatus 1 none none 5 ⟨7, 2, zeroDigest, 2⟩

def childStatus : ArchiveStatus :=
  exampleStatus 2 (some parentStatus.metadata.timeline) (some 7) 7 ⟨7, 2, zeroDigest, 0⟩

def twoSegments : RetentionSystem where
  inPlace := true
  segments := [⟨6, 2⟩, ⟨7, 2⟩]
  staging := []
  writers := fun _ => .idle
  acknowledged := [⟨6, 2⟩, ⟨7, 2⟩]
  retire := .idle
  deleted := []

theorem ready_twoSegments : Ready parentStatus twoSegments :=
  ⟨rfl, rfl, rfl, fun _ => rfl, fun _ inside => inside, .inr (List.mem_cons_of_mem _ List.mem_cons_self)⟩

/-- A late append is staged when the directory is renamed: it fails, and its file stops the
retirement before anything is removed. -/
def lateAppend : List RetentionAction :=
  [.append 0 ⟨8, 2⟩ true, .proceed 0 true true, .retire true, .proceed 0 true true, .retire true, .retire true]

theorem retirement_keeps_history_late_append :
    Ready parentStatus twoSegments ∧ Throughout (step parentStatus childStatus) RemovalCompletes twoSegments lateAppend ∧
      ∃ final, runs (step parentStatus childStatus) twoSegments lateAppend = some final ∧
        final.retire = .failed ∧ final.deleted = [] := by
  have completes : Throughout (step parentStatus childStatus) RemovalCompletes twoSegments lateAppend := by decide
  have ran : ∃ final, runs (step parentStatus childStatus) twoSegments lateAppend = some final ∧
      final.retire = .failed := ⟨_, rfl, by decide⟩
  obtain ⟨final, ran, failed⟩ := ran
  exact ⟨ready_twoSegments, completes, final, ran, failed,
    (retirement_keeps_history parentStatus childStatus twoSegments final lateAppend ready_twoSegments ran).2.2
      completes (.inl failed)⟩

/-- `remove_dir_all` fails after one file, and the last `sync_dir` after all of them: both times
the caller is told of a failure. -/
theorem failed_retirement_removes_segments :
    Ready parentStatus twoSegments ∧
    ((runs (step parentStatus childStatus) twoSegments
      [.retire true, .retire true, .retire true, .retire true, .removeSegment ⟨6, 2⟩, .retire false]).map
        fun s => (s.retire, s.segments, s.deleted)) = some (.failed, [⟨7, 2⟩], [⟨6, 2⟩]) ∧
    ((runs (step parentStatus childStatus) twoSegments
      [.retire true, .retire true, .retire true, .retire true, .removeSegment ⟨6, 2⟩, .removeSegment ⟨7, 2⟩,
        .retire true, .retire false]).map
        fun s => (s.retire, s.segments, s.deleted)) = some (.failed, [], [⟨7, 2⟩, ⟨6, 2⟩]) :=
  ⟨ready_twoSegments, by decide, by decide⟩

end RetentionSystem

end Outcome

end Neuralbase.Pitr
