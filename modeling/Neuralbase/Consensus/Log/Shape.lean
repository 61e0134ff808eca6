import Neuralbase.Consensus.Log

namespace Neuralbase.Consensus

/-! The shape of a log vector and what the log operations do to it. -/

/-- The entries of a slice that starts at Raft index `start`. -/
def Consecutive (start : Nat) (entries : List LogEntry) : Prop :=
  ∀ position entry, entries[position]? = some entry → entry.index = start + position

instance (start : Nat) (entries : List LogEntry) : Decidable (Consecutive start entries) :=
  decidable_of_iff (∀ position < entries.length, ∀ entry ∈ entries[position]?,
      entry.index = start + position) <| by
    constructor
    · intro runs position entry found
      exact runs position (List.getElem?_eq_some_iff.mp found).1 entry found
    · exact fun runs position _ entry found => runs position entry found

def Ascending (entries : List LogEntry) : Prop :=
  entries.Pairwise fun earlier later => earlier.term ≤ later.term

theorem Consecutive.drop {start : Nat} {entries : List LogEntry} (runs : Consecutive start entries)
    (count : Nat) : Consecutive (start + count) (entries.drop count) := by
  intro position entry found
  rw [List.getElem?_drop] at found
  rw [runs _ _ found]
  omega

theorem Consecutive.take {start : Nat} {entries : List LogEntry} (runs : Consecutive start entries)
    (count : Nat) : Consecutive start (entries.take count) := by
  intro position entry found
  rw [List.getElem?_take] at found
  split at found
  · exact runs _ _ found
  · cases found

theorem Consecutive.append {start : Nat} {entries more : List LogEntry}
    (runs : Consecutive start entries) (continues : Consecutive (start + entries.length) more) :
    Consecutive start (entries ++ more) := by
  intro position entry found
  rw [List.getElem?_append] at found
  split at found
  · exact runs _ _ found
  · rw [continues _ _ found]
    omega

theorem Consecutive.cons {entry : LogEntry} {entries : List LogEntry}
    (runs : Consecutive (entry.index + 1) entries) : Consecutive entry.index (entry :: entries) := by
  intro position other found
  cases position with
  | zero =>
    cases found
    rfl
  | succ position =>
    rw [List.getElem?_cons_succ] at found
    rw [runs _ _ found]
    omega

namespace PersistentState

variable {ps : PersistentState}

theorem termAt_pos {index : Nat} (known : 0 < ps.termAt index) :
    ps.snapshotIndex ≤ index ∧ ∃ entry, ps.log[index - ps.snapshotIndex]? = some entry ∧
      entry.term = ps.termAt index := by
  unfold termAt at known ⊢
  split at known
  · omega
  · rename_i above
    rw [if_neg above]
    cases found : ps.log[index - ps.snapshotIndex]? with
    | none => simp [found] at known
    | some entry => exact ⟨by omega, entry, rfl, by simp⟩

theorem mem_append {term : Nat} {command : Bytes} {entry : LogEntry} :
    entry ∈ (ps.append term command).1.log ↔ entry ∈ ps.log ∨
      entry = { term, index := ps.snapshotIndex + ps.log.length, command } := by
  simp [append]

theorem mem_truncateAndAppend {prev : Nat} {entries : List LogEntry} {entry : LogEntry}
    (inside : entry ∈ (ps.truncateAndAppend prev entries).log) : entry ∈ ps.log ∨ entry ∈ entries := by
  rcases List.mem_append.mp inside with kept | added
  · exact .inl (List.mem_of_mem_take kept)
  · exact .inr added

theorem mem_installSnapshot {index term : Nat} {entry : LogEntry}
    (inside : entry ∈ (ps.installSnapshot index term).log) :
    entry = { term, index, command := [] } ∨ entry ∈ ps.log := by
  rcases List.mem_cons.mp inside with sentinel | retained
  · exact .inl sentinel
  · split at retained
    · exact .inr (List.mem_of_mem_drop retained)
    · cases retained

theorem entriesFrom_eq_drop (start : Nat) : ps.entriesFrom start =
    ps.log.drop (if start > ps.snapshotIndex then start - ps.snapshotIndex else 1) := by
  rw [entriesFrom]
  generalize (if start > ps.snapshotIndex then start - ps.snapshotIndex else 1) = physical
  by_cases beyond : physical ≥ ps.log.length
  · rw [if_pos beyond, List.drop_eq_nil_of_le beyond]
  · rw [if_neg beyond]

theorem mem_entriesFrom {start : Nat} {entry : LogEntry} (inside : entry ∈ ps.entriesFrom start) : entry ∈ ps.log := by
  rw [entriesFrom_eq_drop] at inside
  exact List.mem_of_mem_drop inside

/-! The entry at an index. -/

/-- The entry at a Raft index, by its physical position; the sentinel counts. -/
def entryAt (ps : PersistentState) (index : Nat) : Option LogEntry :=
  if index < ps.snapshotIndex then none else ps.log[index - ps.snapshotIndex]?

theorem entryAt_bounds {index : Nat} {entry : LogEntry} (found : ps.entryAt index = some entry) :
    ps.snapshotIndex ≤ index ∧ index < ps.snapshotIndex + ps.log.length := by
  unfold entryAt at found
  split at found
  · cases found
  · have inside := (List.getElem?_eq_some_iff.mp found).1
    omega

theorem entryAt_eq {index : Nat} (above : ps.snapshotIndex ≤ index) :
    ps.entryAt index = ps.log[index - ps.snapshotIndex]? := by
  rw [entryAt, if_neg (by omega)]

theorem entryAt_mem {index : Nat} {entry : LogEntry} (found : ps.entryAt index = some entry) : entry ∈ ps.log := by
  rw [entryAt_eq (entryAt_bounds found).1] at found
  exact List.mem_of_getElem? found

theorem log_ext {other : PersistentState} (boundary : other.snapshotIndex = ps.snapshotIndex)
    (same : ∀ index, other.entryAt index = ps.entryAt index) : other.log = ps.log := by
  refine List.ext_getElem? fun position => ?_
  have found := same (ps.snapshotIndex + position)
  rw [entryAt_eq (by omega), entryAt_eq (by omega), boundary, Nat.add_sub_cancel_left] at found
  exact found

theorem entryAt_truncateAndAppend {prev index : Nat} {entries : List LogEntry}
    (above : ps.snapshotIndex ≤ prev) (inside : prev < ps.snapshotIndex + ps.log.length) :
    (ps.truncateAndAppend prev entries).entryAt index =
      if index ≤ prev then ps.entryAt index else entries[index - (prev + 1)]? := by
  have log : (ps.truncateAndAppend prev entries).log =
      ps.log.take (prev - ps.snapshotIndex + 1) ++ entries := by
    simp [truncateAndAppend, above]
  have boundary : (ps.truncateAndAppend prev entries).snapshotIndex = ps.snapshotIndex := rfl
  have kept : (ps.log.take (prev - ps.snapshotIndex + 1)).length = prev - ps.snapshotIndex + 1 := by
    rw [List.length_take]
    omega
  by_cases below : index < ps.snapshotIndex
  · rw [entryAt, boundary, if_pos below, if_pos (by omega), entryAt, if_pos below]
  · rw [entryAt, boundary, if_neg below, log]
    split
    · rw [List.getElem?_append_left (by omega), List.getElem?_take_of_lt (by omega), entryAt, if_neg below]
    · rw [List.getElem?_append_right (by omega), kept]
      congr 1
      omega

/-! Where the log ends. -/

theorem lastLogIndex_append {term : Nat} {command : Bytes} :
    (ps.append term command).1.lastLogIndex = ps.snapshotIndex + ps.log.length := by
  simp [lastLogIndex, append]

theorem lastLogIndex_truncateAndAppend {prev : Nat} {entries : List LogEntry}
    (some : ps.log ≠ []) : (ps.truncateAndAppend prev entries).lastLogIndex =
      min (max prev ps.snapshotIndex) ps.lastLogIndex + entries.length := by
  have positive := List.length_pos_iff.mpr some
  simp only [lastLogIndex, truncateAndAppend, List.length_append, List.length_take]
  split <;> omega

/-- The log holds an entry, or its boundary, at `index` with this term. -/
def Holds (ps : PersistentState) (index term : Nat) : Prop :=
  index ≥ ps.snapshotIndex ∧ index ≤ ps.lastLogIndex ∧ ps.termAt index = term

instance (index term : Nat) : Decidable (ps.Holds index term) :=
  inferInstanceAs (Decidable (_ ∧ _ ∧ _))

theorem lastLogIndex_installSnapshot_of_holds {index term : Nat} (some : ps.log ≠ []) (holds : ps.Holds index term) :
    (ps.installSnapshot index term).lastLogIndex = ps.lastLogIndex := by
  have positive := List.length_pos_iff.mpr some
  obtain ⟨above, below, same⟩ := holds
  have last : ps.lastLogIndex = ps.snapshotIndex + ps.log.length - 1 := rfl
  show index + (List.length (_ :: if _ then _ else _)) - 1 = _
  split
  · rw [List.length_cons, List.length_drop]
    omega
  · rename_i whole
    have ends : ¬ index < ps.lastLogIndex := fun inside => whole ⟨⟨above, below, same⟩, inside⟩
    simp only [List.length_cons, List.length_nil]
    omega

theorem lastLogIndex_installSnapshot_of_not_holds {index term : Nat} (differs : ¬ ps.Holds index term) :
    (ps.installSnapshot index term).lastLogIndex = index := by
  show index + (List.length (_ :: if _ then _ else _)) - 1 = _
  rw [if_neg fun kept => differs kept.1]
  rfl

end PersistentState

/-- The representation invariant of a log: a sentinel at the snapshot boundary,
then consecutive entries of non-decreasing terms. -/
structure PersistentState.Represents (ps : PersistentState) : Prop where
  sentinel : ps.log.head? =
    some { term := ps.snapshotTerm, index := ps.snapshotIndex, command := [] }
  indexes : Consecutive ps.snapshotIndex ps.log
  terms : Ascending ps.log

/-- What the handlers need besides: real entries have real terms, none above the
node's own, and a boundary at 0 has term 0. -/
structure PersistentState.Shape (ps : PersistentState) : Prop extends ps.Represents where
  bounded : ∀ entry ∈ ps.log, entry.term ≤ ps.currentTerm
  positive : ∀ entry ∈ ps.log, 0 < entry.index → 0 < entry.term
  unsnapped : ps.snapshotIndex = 0 → ps.snapshotTerm = 0

/-- The entries of a message that go after `prevLogIndex`. -/
structure AppendEntriesArgs.Shape (args : AppendEntriesArgs) : Prop where
  indexes : Consecutive (args.prevLogIndex + 1) args.entries
  terms : Ascending args.entries
  bounded : ∀ entry ∈ args.entries, args.prevLogTerm ≤ entry.term ∧ entry.term ≤ args.term
  positive : ∀ entry ∈ args.entries, 0 < entry.term
  previous : args.entries ≠ [] → 0 < args.prevLogIndex → 0 < args.prevLogTerm

namespace PersistentState

variable {ps : PersistentState}

theorem Represents.log_eq (represents : ps.Represents) : ∃ rest, ps.log =
    { term := ps.snapshotTerm, index := ps.snapshotIndex, command := [] } :: rest := by
  cases log : ps.log with
  | nil =>
    have head := represents.sentinel
    simp [log] at head
  | cons first rest =>
    have head := represents.sentinel
    simp only [log, List.head?_cons, Option.some.injEq] at head
    exact ⟨rest, by rw [head]⟩

theorem Represents.length_pos (represents : ps.Represents) : 0 < ps.log.length := by
  obtain ⟨rest, log⟩ := represents.log_eq
  simp [log]

theorem Represents.lastLogIndex (represents : ps.Represents) :
    ps.lastLogIndex + 1 = ps.snapshotIndex + ps.log.length := by
  have positive := represents.length_pos
  unfold PersistentState.lastLogIndex
  omega

theorem new_shape : new.Shape where
  sentinel := rfl
  indexes := by
    intro position entry found
    cases position with
    | zero =>
      cases found
      rfl
    | succ position => cases found
  terms := List.pairwise_singleton _ _
  bounded := by simp [new]
  positive := by simp [new]
  unsnapped := fun _ => rfl

theorem Shape.ballot (shape : ps.Shape) {term : Nat} (vote : Option NodeId)
    (rises : ps.currentTerm ≤ term) :
    ({ ps with currentTerm := term, votedFor := vote } : PersistentState).Shape :=
  { shape with bounded := fun entry inside => (shape.bounded entry inside).trans rises }

theorem Shape.reconfigure (shape : ps.Shape) (membership : Option ClusterMembership) :
    ({ ps with membership } : PersistentState).Shape :=
  { shape with }

theorem Shape.append (shape : ps.Shape) (command : Bytes) (leads : 0 < ps.currentTerm) :
    (ps.append ps.currentTerm command).1.Shape where
  sentinel := by
    obtain ⟨rest, log⟩ := shape.log_eq
    simp [PersistentState.append, log]
  indexes := by
    refine shape.indexes.append fun position entry found => ?_
    cases position with
    | zero =>
      cases found
      rfl
    | succ position => cases found
  terms := by
    refine List.pairwise_append.mpr ⟨shape.terms, List.pairwise_singleton _ _, ?_⟩
    intro earlier inside later added
    rw [List.mem_singleton.mp added]
    exact shape.bounded earlier inside
  bounded := by
    intro entry inside
    rcases mem_append.mp inside with old | rfl
    · exact shape.bounded entry old
    · exact le_rfl
  positive := by
    intro entry inside above
    rcases mem_append.mp inside with old | rfl
    · exact shape.positive entry old above
    · exact leads
  unsnapped := shape.unsnapped

theorem Shape.matched (shape : ps.Shape) {args : AppendEntriesArgs} (slice : args.Shape)
    (above : ps.snapshotIndex ≤ args.prevLogIndex) (entries : args.entries ≠ [])
    (matched : 0 < args.prevLogIndex → ps.termAt args.prevLogIndex = args.prevLogTerm) :
    ∃ entry, ps.log[args.prevLogIndex - ps.snapshotIndex]? = some entry ∧
      (entry.term = args.prevLogTerm ∨ entry.term = 0) := by
  rcases Nat.eq_zero_or_pos args.prevLogIndex with zero | positive
  · obtain ⟨rest, log⟩ := shape.log_eq
    have origin : ps.snapshotIndex = 0 := by omega
    refine ⟨_, by rw [zero, Nat.zero_sub, log]; rfl, .inr (shape.unsnapped origin)⟩
  · have same := matched positive
    have known : 0 < ps.termAt args.prevLogIndex := by
      rw [same]
      exact slice.previous entries positive
    obtain ⟨_, entry, found, term⟩ := termAt_pos known
    exact ⟨entry, found, .inl (term.trans same)⟩

theorem Shape.term_le (shape : ps.Shape) {position : Nat} {entry other : LogEntry}
    (found : ps.log[position]? = some entry) (inside : other ∈ ps.log.take (position + 1)) :
    other.term ≤ entry.term := by
  obtain ⟨bound, rfl⟩ := List.getElem?_eq_some_iff.mp found
  rw [List.take_add_one, List.mem_append, List.getElem?_eq_getElem bound] at inside
  rcases inside with before | same
  · obtain ⟨earlier, small, rfl⟩ := List.mem_take_iff_getElem.mp before
    exact List.pairwise_iff_getElem.mp shape.terms _ _ _ _ (by omega)
  · rw [List.mem_singleton.mp same]

theorem Shape.truncateAndAppend (shape : ps.Shape) {args : AppendEntriesArgs} (slice : args.Shape)
    (above : ps.snapshotIndex ≤ args.prevLogIndex) (entries : args.entries ≠ [])
    (matched : 0 < args.prevLogIndex → ps.termAt args.prevLogIndex = args.prevLogTerm)
    (current : args.term ≤ ps.currentTerm) : (ps.truncateAndAppend args.prevLogIndex args.entries).Shape := by
  obtain ⟨entry, found, term⟩ := shape.matched slice above entries matched
  obtain ⟨bound, _⟩ := List.getElem?_eq_some_iff.mp found
  have log : (ps.truncateAndAppend args.prevLogIndex args.entries).log =
      ps.log.take (args.prevLogIndex - ps.snapshotIndex + 1) ++ args.entries := by
    simp [PersistentState.truncateAndAppend, above]
  refine
    { sentinel := ?_
      indexes := ?_
      terms := ?_
      bounded := fun other inside => ?_
      positive := fun other inside index => ?_
      unsnapped := shape.unsnapped }
  · obtain ⟨rest, old⟩ := shape.log_eq
    rw [log, old, List.take_succ_cons]
    rfl
  · rw [log]
    refine (shape.indexes.take _).append ?_
    have next : ps.snapshotIndex +
        (ps.log.take (args.prevLogIndex - ps.snapshotIndex + 1)).length =
        args.prevLogIndex + 1 := by
      rw [List.length_take]
      omega
    show Consecutive (ps.snapshotIndex + _) _
    rw [next]
    exact slice.indexes
  · rw [log]
    refine List.pairwise_append.mpr ⟨shape.terms.sublist (List.take_sublist _ _), slice.terms, ?_⟩
    intro earlier kept later added
    have below := shape.term_le found kept
    have rises := (slice.bounded later added).1
    omega
  · rcases mem_truncateAndAppend inside with old | added
    · exact shape.bounded other old
    · exact (slice.bounded other added).2.trans current
  · rcases mem_truncateAndAppend inside with old | added
    · exact shape.positive other old index
    · exact slice.positive other added

theorem Shape.installSnapshot (shape : ps.Shape) {index term : Nat}
    (above : ps.snapshotIndex < index) (known : 0 < term) (current : term ≤ ps.currentTerm) :
    (ps.installSnapshot index term).Shape := by
  -- What follows the boundary is kept only if the boundary holds its term.
  have retained : ∃ rest, (ps.installSnapshot index term).log =
      { term, index, command := [] } :: rest ∧ (rest = [] ∨ rest =
        ps.log.drop (index - ps.snapshotIndex + 1) ∧ ps.termAt index = term) := by
    unfold PersistentState.installSnapshot
    dsimp only
    split
    · rename_i kept
      exact ⟨_, rfl, .inr ⟨rfl, kept.1.2.2⟩⟩
    · exact ⟨[], rfl, .inl rfl⟩
  obtain ⟨rest, log, kept⟩ := retained
  have indexes : Consecutive (index + 1) rest := by
    rcases kept with rfl | ⟨rfl, _⟩
    · intro position entry found
      simp at found
    · have runs := shape.indexes.drop (index - ps.snapshotIndex + 1)
      rwa [show ps.snapshotIndex + (index - ps.snapshotIndex + 1) = index + 1 by omega] at runs
  have terms : Ascending rest := by
    rcases kept with rfl | ⟨rfl, _⟩
    · exact List.Pairwise.nil
    · exact shape.terms.sublist (List.drop_sublist _ _)
  have higher : ∀ entry ∈ rest, term ≤ entry.term := by
    intro entry inside
    rcases kept with rfl | ⟨rfl, same⟩
    · simp at inside
    · have known : 0 < ps.termAt index := by omega
      obtain ⟨_, boundary, found, holds⟩ := termAt_pos known
      obtain ⟨bound, rfl⟩ := List.getElem?_eq_some_iff.mp found
      obtain ⟨position, small, rfl⟩ := List.mem_drop_iff_getElem.mp inside
      rw [← same, ← holds]
      exact List.pairwise_iff_getElem.mp shape.terms _ _ _ _ (by omega)
  refine
    { sentinel := by rw [log]; rfl
      indexes := by rw [log]; exact @Consecutive.cons { term, index, command := [] } _ indexes
      terms := by rw [log]; exact List.pairwise_cons.mpr ⟨higher, terms⟩
      bounded := fun entry inside => ?_
      positive := fun entry inside index => ?_
      unsnapped := fun zero => ?_ }
  · rcases mem_installSnapshot inside with rfl | old
    · exact current
    · exact shape.bounded entry old
  · rcases mem_installSnapshot inside with rfl | old
    · exact known
    · exact shape.positive entry old index
  · have : index = 0 := zero
    omega

theorem Shape.termAt_le (shape : ps.Shape) (index : Nat) : ps.termAt index ≤ ps.currentTerm := by
  rcases Nat.eq_zero_or_pos (ps.termAt index) with zero | positive
  · omega
  · obtain ⟨_, entry, found, term⟩ := termAt_pos positive
    rw [← term]
    exact shape.bounded entry (List.mem_of_getElem? found)

theorem Shape.termAt_pos (shape : ps.Shape) {index : Nat} (above : ps.snapshotIndex ≤ index)
    (below : index ≤ ps.lastLogIndex) (positive : 0 < index) : 0 < ps.termAt index := by
  have last := shape.lastLogIndex
  have bound : index - ps.snapshotIndex < ps.log.length := by omega
  have found := List.getElem?_eq_getElem bound
  have term := shape.positive _ (List.getElem_mem bound)
    (by rw [shape.indexes _ _ found]; omega)
  simpa [termAt, Nat.not_lt.mpr above, found] using term

theorem Shape.slice (shape : ps.Shape) {following : Nat}
    (holds : ps.snapshotIndex = 0 ∨ ps.snapshotIndex < following) (leaderId : NodeId)
    (leaderCommit : Nat) : AppendEntriesArgs.Shape {
      term := ps.currentTerm
      leaderId
      prevLogIndex := following - 1
      prevLogTerm := ps.termAt (following - 1)
      entries := ps.entriesFrom following
      leaderCommit } := by
  have entries : ps.entriesFrom following =
      ps.log.drop (following - 1 - ps.snapshotIndex + 1) := by
    rw [entriesFrom_eq_drop]
    congr 1
    split <;> omega
  have above : ps.snapshotIndex ≤ following - 1 := by omega
  have indexes : Consecutive (following - 1 + 1) (ps.entriesFrom following) := by
    have runs := shape.indexes.drop (following - 1 - ps.snapshotIndex + 1)
    rw [entries]
    rwa [show ps.snapshotIndex + (following - 1 - ps.snapshotIndex + 1) = following - 1 + 1 by
      omega] at runs
  have positive : ∀ entry ∈ ps.entriesFrom following, 0 < entry.term := by
    intro entry inside
    obtain ⟨position, found⟩ := List.getElem?_of_mem inside
    exact shape.positive entry (mem_entriesFrom inside) (by rw [indexes _ _ found]; omega)
  refine
    { indexes
      terms := ?_
      bounded := fun entry inside => ⟨?_, shape.bounded entry (mem_entriesFrom inside)⟩
      positive
      previous := fun some positive => shape.termAt_pos above ?_ positive }
  · show Ascending (ps.entriesFrom following)
    rw [entries]
    exact shape.terms.sublist (List.drop_sublist _ _)
  · have inside : entry ∈ ps.entriesFrom following := inside
    rw [entries] at inside
    obtain ⟨position, small, rfl⟩ := List.mem_drop_iff_getElem.mp inside
    show ps.termAt (following - 1) ≤ _
    rcases Nat.eq_zero_or_pos (ps.termAt (following - 1)) with zero | known
    · omega
    · obtain ⟨_, boundary, found, term⟩ := PersistentState.termAt_pos known
      obtain ⟨bound, rfl⟩ := List.getElem?_eq_some_iff.mp found
      rw [← term]
      exact List.pairwise_iff_getElem.mp shape.terms _ _ _ _ (by omega)
  · have some : ps.entriesFrom following ≠ [] := some
    rw [entries, Ne, List.drop_eq_nil_iff] at some
    have last := shape.lastLogIndex
    show following - 1 ≤ ps.lastLogIndex
    omega

end PersistentState

end Neuralbase.Consensus
