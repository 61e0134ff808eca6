import Neuralbase.Consensus.Schedule
import Neuralbase.RaftPersistence

namespace Neuralbase.Persistence

open Neuralbase.Library Neuralbase.Consensus Neuralbase.Storage
open RocksDbRaftPersistenceStore

/-! The incremental store answers like the in-memory one: after any operations, what
it holds is the hard state, the log entries and the snapshot bytes of the state that
was saved last. -/

section Codes

theorem decodeLogEntry_encode {entry : LogEntry} {bytes : Bytes} (term : entry.term < 2 ^ 64)
    (index : entry.index < 2 ^ 64) (encoded : encodeLogEntry entry = .ok bytes) :
    decodeLogEntry entry.index bytes = .ok entry := by
  unfold encodeLogEntry at encoded
  split at encoded
  · rename_i short
    generalize whole : logEntryMagic ++ ([logEntryVersion] ++ (toBeBytes 8 entry.term ++
      (toBeBytes 8 entry.index ++ (toBeBytes 4 entry.command.length ++ entry.command)))) = layout at encoded
    cases encoded
    have from5 : bytes.drop 5 = toBeBytes 8 entry.term ++ (toBeBytes 8 entry.index ++
        (toBeBytes 4 entry.command.length ++ entry.command)) := by
      rw [← whole]
      rfl
    have from13 : bytes.drop 13 = toBeBytes 8 entry.index ++
        (toBeBytes 4 entry.command.length ++ entry.command) := by
      rw [← List.drop_drop (i := 8) (j := 5), from5, List.drop_left' (length_toBeBytes _ _)]
    have from21 : bytes.drop 21 = toBeBytes 4 entry.command.length ++ entry.command := by
      rw [← List.drop_drop (i := 8) (j := 13), from13, List.drop_left' (length_toBeBytes _ _)]
    have body : bytes.drop logEntryHeaderBytes = entry.command := by
      change bytes.drop (21 + 4) = _
      rw [← List.drop_drop, from21, List.drop_left' (length_toBeBytes _ _)]
    have length : bytes.length = logEntryHeaderBytes + entry.command.length := by
      have magic : logEntryMagic.length = 4 := by decide
      rw [← whole]
      simp only [List.length_append, length_toBeBytes, magic, List.length_cons, List.length_nil,
        logEntryHeaderBytes]
      omega
    have magic : ¬ bytes.take 4 ≠ logEntryMagic := by
      rw [not_not, ← whole]
      rfl
    have version : ¬ (bytes.drop 4).headD 0 ≠ logEntryVersion := by
      rw [not_not, ← whole]
      rfl
    have long : ¬ bytes.length < logEntryHeaderBytes := by omega
    rw [decodeLogEntry, if_neg long, if_neg magic, if_neg version]
    simp only [from5, from13, from21, body, length, List.take_left' (length_toBeBytes _ _), fromBeBytes_toBeBytes 8 _ term,
      fromBeBytes_toBeBytes 8 _ index, fromBeBytes_toBeBytes 4 _ short, ne_eq, not_true, if_false]
  · cases encoded

theorem decodeStagedSnapshot_encode {snapshot : StagedSnapshot}
    (index : snapshot.lastIncludedIndex < 2 ^ 64) (term : snapshot.lastIncludedTerm < 2 ^ 64) :
    decodeStagedSnapshot (encodeStagedSnapshot snapshot) = .ok snapshot := by
  generalize whole : encodeStagedSnapshot snapshot = bytes
  have kind : stagedKind ((bytes.drop 5).headD 0) = some snapshot.kind := by
    rw [← whole]
    cases snapshot with
    | mk kind index term data => cases kind <;> rfl
  have from6 : bytes.drop 6 = toBeBytes 8 snapshot.lastIncludedIndex ++
      (toBeBytes 8 snapshot.lastIncludedTerm ++ snapshot.data) := by
    rw [← whole]
    rfl
  have from14 : bytes.drop 14 = toBeBytes 8 snapshot.lastIncludedTerm ++ snapshot.data := by
    rw [← List.drop_drop (i := 8) (j := 6), from6, List.drop_left' (length_toBeBytes _ _)]
  have body : bytes.drop stagedHeaderBytes = snapshot.data := by
    change bytes.drop (14 + 8) = _
    rw [← List.drop_drop, from14, List.drop_left' (length_toBeBytes _ _)]
  have long : ¬ bytes.length < stagedHeaderBytes := by
    have magic : stagedMagic.length = 4 := by decide
    rw [← whole, encodeStagedSnapshot]
    simp only [List.length_append, length_toBeBytes, magic, List.length_cons, List.length_nil,
      stagedHeaderBytes]
    omega
  have magic : ¬ bytes.take 4 ≠ stagedMagic := by
    rw [not_not, ← whole]
    rfl
  have version : ¬ (bytes.drop 4).headD 0 ≠ stagedVersion := by
    rw [not_not, ← whole]
    rfl
  simp only [decodeStagedSnapshot, if_neg long, if_neg magic, if_neg version, kind, from6, from14, body,
    List.take_left' (length_toBeBytes _ _), fromBeBytes_toBeBytes 8 _ term,
    fromBeBytes_toBeBytes 8 _ index]

end Codes

section Keys

variable {index other : Nat}

theorem raftLogKey_inj (fits : index < 2 ^ 64) (bounded : other < 2 ^ 64) :
    raftLogKey index = raftLogKey other ↔ index = other := by
  constructor
  · intro same
    exact (toBeBytes_inj fits bounded).mp (List.append_cancel_left same)
  · rintro rfl
    rfl

theorem raftLogKey_ne {key : Bytes} (apart : key.length ≠ 25) : raftLogKey index ≠ key := by
  rintro rfl
  refine apart ?_
  have stem : raftLogPrefixV2.length = 17 := by decide
  rw [raftLogKey, List.length_append, length_toBeBytes, stem]

end Keys

section Ranges

variable {state : PersistentState} {indices : List Nat} {batch : WriteBatch} {db : Database}
  {index first last : Nat} {key : Bytes}

@[simp] theorem mem_inclusiveRange : index ∈ inclusiveRange first last ↔ first ≤ index ∧ index ≤ last := by
  rw [inclusiveRange, List.mem_range'_1]
  omega

def LogOps (batch : WriteBatch) : Prop := ∀ op ∈ batch, op.cf = .metadata ∧ ∃ index, op.key = raftLogKey index

theorem LogOps.append {later : WriteBatch} (ops : LogOps batch) (more : LogOps later) : LogOps (batch ++ later) := by
  intro op inside
  rcases List.mem_append.mp inside with front | back
  · exact ops op front
  · exact more op back

theorem LogOps.untouched (ops : LogOps batch) (apart : key.length ≠ 25) : ¬ Database.Touches batch .metadata key := by
  rintro ⟨op, inside, _, same⟩
  obtain ⟨_, index, target⟩ := ops op inside
  exact raftLogKey_ne apart (target.symm.trans same)

theorem putLogEntry_eq_ok (encoded : putLogEntry state index = .ok batch) : ∃ entry, state.entryAt index = some entry ∧
      (index = state.snapshotIndex ∧ batch = [] ∨ index ≠ state.snapshotIndex ∧
        ∃ bytes, encodeLogEntry entry = .ok bytes ∧ batch = [putCf .metadata (raftLogKey index) bytes]) := by
  unfold putLogEntry at encoded
  split at encoded
  · cases encoded
  rename_i entry found
  refine ⟨entry, found, ?_⟩
  split at encoded
  · rename_i sentinel
    cases encoded
    exact .inl ⟨sentinel, rfl⟩
  · rename_i apart
    cases code : encodeLogEntry entry with
    | error reason =>
      rw [code] at encoded
      cases encoded
    | ok bytes =>
      rw [code] at encoded
      cases encoded
      exact .inr ⟨apart, bytes, rfl, rfl⟩

theorem putLogEntries_logOps (encoded : putLogEntries state indices = .ok batch) : LogOps batch := by
  induction indices generalizing batch with
  | nil =>
    cases encoded
    exact fun op inside => by cases inside
  | cons index rest induction =>
    obtain ⟨ops, head, tail⟩ := bind_eq_ok.mp encoded
    obtain ⟨others, more, same⟩ := bind_eq_ok.mp tail
    cases pure_eq_ok.mp same
    refine LogOps.append ?_ (induction more)
    obtain ⟨entry, _, ⟨_, rfl⟩ | ⟨_, bytes, _, rfl⟩⟩ := putLogEntry_eq_ok head
    · exact fun op inside => by cases inside
    · intro op inside
      rw [List.mem_singleton.mp inside]
      exact ⟨rfl, index, rfl⟩

theorem putLogEntries_get (db : Database) (encoded : putLogEntries state indices = .ok batch)
    (bounded : ∀ index ∈ indices, index < 2 ^ 64) (fits : index < 2 ^ 64) :
    if index ∈ indices ∧ index ≠ state.snapshotIndex then
      ∃ entry bytes, state.entryAt index = some entry ∧ encodeLogEntry entry = .ok bytes ∧
        (db.writeBatch batch .metadata).get (raftLogKey index) = some bytes
    else (db.writeBatch batch .metadata).get (raftLogKey index) =
      (db .metadata).get (raftLogKey index) := by
  induction indices generalizing batch db with
  | nil =>
    cases encoded
    simp [Database.writeBatch]
  | cons first rest induction =>
    obtain ⟨ops, head, tail⟩ := bind_eq_ok.mp encoded
    obtain ⟨others, more, same⟩ := bind_eq_ok.mp tail
    cases pure_eq_ok.mp same
    have rested := induction (db.writeBatch ops) more
      (fun index inside => bounded index (List.mem_cons_of_mem _ inside))
    rw [Database.writeBatch_append]
    by_cases again : index ∈ rest ∧ index ≠ state.snapshotIndex
    · rw [if_pos again] at rested
      rwa [if_pos ⟨List.mem_cons_of_mem _ again.1, again.2⟩]
    rw [if_neg again] at rested
    obtain ⟨entry, found, ⟨sentinel, rfl⟩ | ⟨apart, bytes, code, rfl⟩⟩ := putLogEntry_eq_ok head
    · have other : ¬ (index ∈ first :: rest ∧ index ≠ state.snapshotIndex) := by
        rintro ⟨inside, differs⟩
        rcases List.mem_cons.mp inside with rfl | inside
        · exact differs sentinel
        · exact again ⟨inside, differs⟩
      rwa [if_neg other]
    · rw [rested]
      by_cases here : index = first
      · subst here
        rw [if_pos ⟨List.mem_cons_self, apart⟩]
        exact ⟨entry, bytes, found, code, by simp [Database.writeBatch, Database.get_write, putCf]⟩
      · have other : ¬ (index ∈ first :: rest ∧ index ≠ state.snapshotIndex) := by
          rintro ⟨inside, differs⟩
          rcases List.mem_cons.mp inside with same | inside
          · exact here same
          · exact again ⟨inside, differs⟩
        rw [if_neg other]
        have apartKeys : raftLogKey first ≠ raftLogKey index := fun same =>
          here ((raftLogKey_inj (bounded first List.mem_cons_self) fits).mp same).symm
        simp [Database.writeBatch, Database.get_write, putCf, apartKeys]

theorem putLogEntries_ok (present : ∀ index ∈ indices, ∃ entry, state.entryAt index = some entry ∧
      entry.command.length < 2 ^ 32) : ∃ batch, putLogEntries state indices = .ok batch := by
  induction indices with
  | nil => exact ⟨[], rfl⟩
  | cons index rest induction =>
    obtain ⟨entry, found, short⟩ := present index List.mem_cons_self
    obtain ⟨others, more⟩ := induction fun index inside => present index (List.mem_cons_of_mem _ inside)
    have head : ∃ ops, putLogEntry state index = .ok ops := by
      simp only [putLogEntry, found, encodeLogEntry, if_pos short, Except.map]
      split <;> exact ⟨_, rfl⟩
    obtain ⟨ops, head⟩ := head
    exact ⟨ops ++ others, bind_eq_ok.mpr ⟨ops, head, bind_eq_ok.mpr ⟨others, more, rfl⟩⟩⟩

theorem deleteLogRange_logOps : LogOps (deleteLogRange first last) := by
  intro op inside
  obtain ⟨index, _, rfl⟩ := List.mem_map.mp inside
  exact ⟨rfl, index, rfl⟩

end Ranges

structure WellFormed (state : PersistentState) : Prop where
  sentinel : state.log.head? =
    some { term := state.snapshotTerm, index := state.snapshotIndex, command := [] }
  consecutive : Consecutive state.snapshotIndex state.log
  indexes : state.snapshotIndex + state.log.length < 2 ^ 64
  terms : ∀ entry ∈ state.log, entry.term < 2 ^ 64

/-- Two states that hold the same term at an index hold the same entries up to it. -/
def LogMatching (state other : PersistentState) : Prop :=
  ∀ index ≤ state.lastLogIndex, state.snapshotIndex ≤ index → other.snapshotIndex ≤ index →
    index ≤ other.lastLogIndex → state.termAt index = other.termAt index →
    ∀ below ≤ index, state.snapshotIndex < below → other.snapshotIndex < below →
      state.entryAt below = other.entryAt below

namespace WellFormed

variable {state : PersistentState} {index : Nat}

theorem length_pos (formed : WellFormed state) : 0 < state.log.length := by
  cases log : state.log with
  | nil =>
    have head := formed.sentinel
    rw [log] at head
    cases head
  | cons entry rest => simp

theorem succ_lastLogIndex (formed : WellFormed state) :
    state.lastLogIndex + 1 = state.snapshotIndex + state.log.length := by
  have positive := formed.length_pos
  rw [PersistentState.lastLogIndex]
  omega

theorem exists_entry (formed : WellFormed state) (above : state.snapshotIndex ≤ index)
    (within : index ≤ state.lastLogIndex) :
    ∃ entry, state.entryAt index = some entry ∧ entry.index = index ∧ entry.term < 2 ^ 64 := by
  have last := formed.succ_lastLogIndex
  have inside : index - state.snapshotIndex < state.log.length := by omega
  have found : state.log[index - state.snapshotIndex]? = some state.log[index - state.snapshotIndex] :=
    List.getElem?_eq_getElem inside
  refine ⟨_, (PersistentState.entryAt_eq above).trans found, ?_, formed.terms _ (List.getElem_mem inside)⟩
  rw [formed.consecutive _ _ found]
  omega

theorem snapshotIndex_le (formed : WellFormed state) : state.snapshotIndex ≤ state.lastLogIndex := by
  have last := formed.succ_lastLogIndex
  have positive := formed.length_pos
  omega

theorem lastLogTerm_eq (formed : WellFormed state) : state.lastLogTerm = state.termAt state.lastLogIndex := by
  have last := formed.succ_lastLogIndex
  have position : state.lastLogIndex - state.snapshotIndex = state.log.length - 1 := by omega
  rw [PersistentState.lastLogTerm, PersistentState.termAt, if_neg (not_lt.mpr formed.snapshotIndex_le),
    position, List.getLast?_eq_getElem?]

theorem saturatingSucc_eq (formed : WellFormed state) (within : index ≤ state.lastLogIndex) :
    saturatingSucc index = index + 1 := by
  have last := formed.succ_lastLogIndex
  have bound := formed.indexes
  rw [saturatingSucc]
  omega

end WellFormed

section Stored

variable {codec : HardStateCodec} {db : Database} {state old : PersistentState} {data oldData : Bytes}
  {batch : WriteBatch}

structure Stored (codec : HardStateCodec) (db : Database) (state : PersistentState) (data : Bytes) :
    Prop where
  hard : (db .metadata).get raftHardStateKeyV2 = some (codec.hardToVec (.fromState state data))
  snapshot : (db .metadata).get raftSnapshotKey = some data
  entries : ∀ index, state.snapshotIndex < index → index ≤ state.lastLogIndex →
    ∃ entry bytes, state.entryAt index = some entry ∧ encodeLogEntry entry = .ok bytes ∧
      (db .metadata).get (raftLogKey index) = some bytes

def saveHeader (codec : HardStateCodec) (state : PersistentState) (data : Bytes) : WriteBatch :=
  [putCf .metadata raftHardStateKeyV2 (codec.hardToVec (.fromState state data)),
    deleteCf .metadata raftStateKeyV1, deleteCf .metadata raftStagedSnapshotKey]

theorem saveHeader_get {key : Bytes} :
    (db.writeBatch (saveHeader codec state data) .metadata).get key =
      if key = raftHardStateKeyV2 then some (codec.hardToVec (.fromState state data))
      else if key = raftStateKeyV1 ∨ key = raftStagedSnapshotKey then none
      else (db .metadata).get key := by
  have first : raftStateKeyV1 ≠ raftHardStateKeyV2 := by decide
  have second : raftStagedSnapshotKey ≠ raftHardStateKeyV2 := by decide
  simp only [saveHeader, Database.writeBatch, List.foldl_cons, List.foldl_nil, Database.get_write, putCf,
    deleteCf, true_and]
  by_cases hard : key = raftHardStateKeyV2
  · subst hard
    simp [first, second]
  · by_cases legacy : key = raftStateKeyV1 <;> by_cases staged : key = raftStagedSnapshotKey <;>
      simp_all [eq_comm]

theorem saved_get {changes : WriteBatch} {rewrite : Prop} [Decidable rewrite] {key : Bytes}
    (ops : LogOps changes) (apart : key.length ≠ 25) :
    (db.writeBatch (saveHeader codec state data ++ (changes ++
      if rewrite then [putCf .metadata raftSnapshotKey data] else [])) .metadata).get key =
      if key = raftSnapshotKey ∧ rewrite then some data
      else (db.writeBatch (saveHeader codec state data) .metadata).get key := by
  rw [Database.writeBatch_append, Database.writeBatch_append]
  by_cases rewritten : rewrite
  · by_cases snapshot : key = raftSnapshotKey
    · simp [rewritten, snapshot, Database.writeBatch, Database.get_write, putCf]
    · have same : ((db.writeBatch (saveHeader codec state data)).writeBatch changes .metadata).get key =
          (db.writeBatch (saveHeader codec state data) .metadata).get key :=
        Database.get_untouched (ops.untouched apart)
      simpa [rewritten, snapshot, Ne.symm snapshot, Database.writeBatch, Database.get_write, putCf] using same
  · simpa [rewritten, Database.writeBatch] using Database.get_untouched (ops.untouched apart)

/-- How a save changes the log keys: all entries, or those after the last durable one. -/
inductive Changes (state : PersistentState) (previous : Option PersistedHardStateV2)
    (changes : WriteBatch) : Prop
  | full (deletes puts : WriteBatch) : LogOps deletes →
      putLogRange state (saturatingSucc state.snapshotIndex) state.lastLogIndex = .ok puts →
      changes = deletes ++ puts → Changes state previous changes
  | appended (hard : PersistedHardStateV2) : previous = some hard →
      hard.snapshotIndex = state.snapshotIndex → hard.lastLogIndex ≤ state.lastLogIndex →
      state.termAt hard.lastLogIndex = hard.lastLogTerm →
      putLogRange state (saturatingSucc hard.lastLogIndex) state.lastLogIndex = .ok changes →
      Changes state previous changes

theorem Changes.logOps {previous : Option PersistedHardStateV2} {changes : WriteBatch}
    (shape : Changes state previous changes) : LogOps changes := by
  cases shape with
  | full deletes puts ops encoded split =>
    rw [split]
    exact ops.append (putLogEntries_logOps encoded)
  | appended hard _ _ _ _ encoded => exact putLogEntries_logOps encoded

theorem saveBatch_shape {previous : Option PersistedHardStateV2}
    (encoded : saveBatch codec previous state data = .ok batch) :
    ∃ changes rewrite, Changes state previous changes ∧
      batch = saveHeader codec state data ++ (changes ++
        if rewrite = true then [putCf .metadata raftSnapshotKey data] else []) ∧
      (rewrite = false → ∃ hard, previous = some hard ∧ hard.snapshotIndex = state.snapshotIndex) := by
  cases previous with
  | none =>
    obtain ⟨puts, put, same⟩ := bind_eq_ok.mp encoded
    cases pure_eq_ok.mp same
    exact ⟨puts, true, .full [] puts (fun _ inside => by cases inside) put rfl, rfl, by simp⟩
  | some hard =>
    simp only [saveBatch] at encoded
    split at encoded
    · obtain ⟨puts, put, same⟩ := bind_eq_ok.mp encoded
      cases pure_eq_ok.mp same
      exact ⟨deleteLogRange (saturatingSucc hard.snapshotIndex) hard.lastLogIndex ++ puts, true,
        .full _ puts deleteLogRange_logOps put rfl, by simp [saveHeader], by simp⟩
    · rename_i boundary
      have boundary : hard.snapshotIndex = state.snapshotIndex := not_not.mp boundary
      obtain ⟨changes, chosen, same⟩ := bind_eq_ok.mp encoded
      cases pure_eq_ok.mp same
      refine ⟨changes, decide (hard.snapshotBytesLen ≠ data.length), ?_, ?_,
        fun _ => ⟨hard, rfl, boundary⟩⟩
      · simp only [logChanges] at chosen
        split at chosen
        · rename_i matching
          exact .appended hard rfl boundary matching.1 matching.2 chosen
        · cases put : putLogRange state (saturatingSucc state.snapshotIndex) state.lastLogIndex with
          | error reason => simp [put, Except.map] at chosen
          | ok puts =>
            simp only [put, Except.map, Except.ok.injEq] at chosen
            exact .full _ puts deleteLogRange_logOps put chosen.symm
      · simp only [decide_eq_true_eq]
        rfl

/-- What the last durable record stands for, and how the next state relates to it. -/
structure Precedes (codec : HardStateCodec) (db : Database) (old : PersistentState) (oldData : Bytes)
    (state : PersistentState) (data : Bytes) : Prop where
  formed : WellFormed old
  stored : Stored codec db old oldData
  matching : LogMatching old state
  bytes : old.snapshotIndex = state.snapshotIndex → oldData = data

theorem saved_entry {changes : WriteBatch} {rewrite : Prop} [Decidable rewrite] {index : Nat} :
    (db.writeBatch (saveHeader codec state data ++ (changes ++
      if rewrite then [putCf .metadata raftSnapshotKey data] else [])) .metadata).get (raftLogKey index) =
      ((db.writeBatch (saveHeader codec state data)).writeBatch changes .metadata).get
        (raftLogKey index) := by
  have apart : raftSnapshotKey ≠ raftLogKey index := (raftLogKey_ne (by decide)).symm
  rw [Database.writeBatch_append, Database.writeBatch_append]
  by_cases rewritten : rewrite <;>
    simp [rewritten, Database.writeBatch, Database.get_write, putCf, apart]

theorem header_entry {index : Nat} : (db.writeBatch (saveHeader codec state data) .metadata).get (raftLogKey index) =
      (db .metadata).get (raftLogKey index) := by
  have hard : raftLogKey index ≠ raftHardStateKeyV2 := raftLogKey_ne (by decide)
  have legacy : raftLogKey index ≠ raftStateKeyV1 := raftLogKey_ne (by decide)
  have staged : raftLogKey index ≠ raftStagedSnapshotKey := raftLogKey_ne (by decide)
  rw [saveHeader_get]
  simp [hard, legacy, staged]

theorem Changes.entry {previous : Option PersistedHardStateV2} {changes : WriteBatch} {index : Nat}
    (shape : Changes state previous changes) (formed : WellFormed state)
    (known : ∀ hard, previous = some hard → ∃ old oldData,
      hard = .fromState old oldData ∧ Precedes codec db old oldData state data)
    (above : state.snapshotIndex < index) (within : index ≤ state.lastLogIndex) :
    ∃ entry bytes, state.entryAt index = some entry ∧ encodeLogEntry entry = .ok bytes ∧
      ((db.writeBatch (saveHeader codec state data)).writeBatch changes .metadata).get
        (raftLogKey index) = some bytes := by
  have last := formed.succ_lastLogIndex
  have bound := formed.indexes
  have fits : index < 2 ^ 64 := by omega
  have bounded : ∀ first, ∀ other ∈ inclusiveRange first state.lastLogIndex, other < 2 ^ 64 := by
    intro first other inside
    have under := (mem_inclusiveRange.mp inside).2
    omega
  cases shape with
  | full deletes puts ops encoded split =>
    have present := putLogEntries_get
      ((db.writeBatch (saveHeader codec state data)).writeBatch deletes) encoded (bounded _) fits
    rw [formed.saturatingSucc_eq formed.snapshotIndex_le,
      if_pos ⟨mem_inclusiveRange.mpr ⟨above, within⟩, above.ne'⟩] at present
    rwa [split, Database.writeBatch_append]
  | appended hard same boundary shorter term encoded =>
    obtain ⟨old, oldData, rfl, before⟩ := known hard same
    have present := putLogEntries_get (db.writeBatch (saveHeader codec state data)) encoded (bounded _) fits
    rw [formed.saturatingSucc_eq shorter] at present
    by_cases new : old.lastLogIndex < index
    · rwa [if_pos ⟨mem_inclusiveRange.mpr ⟨new, within⟩, above.ne'⟩] at present
    · have outside : ¬ (index ∈ inclusiveRange (old.lastLogIndex + 1) state.lastLogIndex ∧
          index ≠ state.snapshotIndex) := by
        rintro ⟨inside, _⟩
        exact new (mem_inclusiveRange.mp inside).1
      have boundary : old.snapshotIndex = state.snapshotIndex := boundary
      obtain ⟨entry, bytes, found, code, stored⟩ :=
        before.stored.entries index (by omega) (not_lt.mp new)
      rw [show (PersistedHardStateV2.fromState old oldData).lastLogIndex = old.lastLogIndex from rfl,
        if_neg outside, header_entry, stored] at present
      refine ⟨entry, bytes, ?_, code, present⟩
      have formedOld := before.formed
      rw [← found]
      refine (before.matching old.lastLogIndex le_rfl formedOld.snapshotIndex_le ?_ shorter ?_ index
        (not_lt.mp new) (by omega) above).symm
      · rw [← boundary]
        exact formedOld.snapshotIndex_le
      · exact formedOld.lastLogTerm_eq.symm.trans term.symm

theorem stored_of_save {previous : Option PersistedHardStateV2} (formed : WellFormed state)
    (known : ∀ hard, previous = some hard → ∃ old oldData,
      hard = .fromState old oldData ∧ Precedes codec db old oldData state data)
    (encoded : saveBatch codec previous state data = .ok batch) :
    Stored codec (db.writeBatch batch) state data := by
  obtain ⟨changes, rewrite, shape, rfl, kept⟩ := saveBatch_shape encoded
  have ops := shape.logOps
  refine ⟨?_, ?_, ?_⟩
  · rw [saved_get ops (by decide), saveHeader_get]
    have apart : raftHardStateKeyV2 ≠ raftSnapshotKey := by decide
    simp [apart]
  · rw [saved_get ops (by decide), saveHeader_get]
    have first : raftSnapshotKey ≠ raftHardStateKeyV2 := by decide
    have second : ¬ (raftSnapshotKey = raftStateKeyV1 ∨ raftSnapshotKey = raftStagedSnapshotKey) := by
      decide
    cases rewrite with
    | true => simp
    | false =>
      obtain ⟨hard, rfl, boundary⟩ := kept rfl
      obtain ⟨old, oldData, rfl, before⟩ := known hard rfl
      simp only [Bool.false_eq_true, and_false, if_false, first, second]
      rw [before.stored.snapshot, before.bytes boundary]
  · intro index above within
    rw [saved_entry]
    exact shape.entry formed known above within

end Stored

section Load

variable {codec : HardStateCodec} {store : RocksDbRaftPersistenceStore} {state : PersistentState}
  {data : Bytes}

theorem filterMap_range' {α : Type} (front rest : List α) (base : Nat) :
    (List.range' (base + front.length) rest.length).filterMap (fun index =>
      (front ++ rest)[index - base]?) = rest := by
  induction rest generalizing front with
  | nil => rfl
  | cons item rest induction =>
    have step := induction (front ++ [item])
    simp only [List.length_append, List.length_singleton, ← Nat.add_assoc, List.append_assoc,
      List.singleton_append] at step
    rw [List.length_cons, List.range'_succ, List.filterMap_cons_some, step]
    simp

theorem WellFormed.entries (formed : WellFormed state) :
    (inclusiveRange (state.snapshotIndex + 1) state.lastLogIndex).filterMap state.entryAt = state.log.tail := by
  obtain ⟨sentinel, rest, split⟩ : ∃ sentinel rest, state.log = sentinel :: rest :=
    List.exists_cons_of_length_pos formed.length_pos
  have last := formed.succ_lastLogIndex
  have range : inclusiveRange (state.snapshotIndex + 1) state.lastLogIndex =
      List.range' (state.snapshotIndex + 1) rest.length := by
    rw [split, List.length_cons] at last
    rw [inclusiveRange]
    congr 1
    omega
  have listed := filterMap_range' [sentinel] rest state.snapshotIndex
  rw [range, split, List.tail_cons]
  refine Eq.trans (List.filterMap_congr fun index inside => ?_) listed
  have above := (List.mem_range'_1.mp inside).1
  rw [PersistentState.entryAt_eq (by omega), split]
  rfl

theorem loadEntries_eq {indices : List Nat} (present : ∀ index ∈ indices, ∃ entry, state.entryAt index = some entry ∧
      store.loadEntry index = .ok entry) : store.loadEntries indices = .ok (indices.filterMap state.entryAt) := by
  induction indices with
  | nil => rfl
  | cons index rest induction =>
    obtain ⟨entry, found, loaded⟩ := present index List.mem_cons_self
    have others := induction fun index inside => present index (List.mem_cons_of_mem _ inside)
    rw [loadEntries, loaded, others, List.filterMap_cons_some found]
    rfl

theorem Stored.loadEntry {index : Nat} (stored : Stored codec store.db state data)
    (formed : WellFormed state) (above : state.snapshotIndex < index) (within : index ≤ state.lastLogIndex) :
    ∃ entry, state.entryAt index = some entry ∧ store.loadEntry index = .ok entry := by
  obtain ⟨entry, bytes, found, code, held⟩ := stored.entries index above within
  obtain ⟨other, again, position, term⟩ := formed.exists_entry above.le within
  rw [found] at again
  cases again
  refine ⟨entry, found, ?_⟩
  have last := formed.succ_lastLogIndex
  have bound := formed.indexes
  have decoded := decodeLogEntry_encode term (by omega) code
  rw [position] at decoded
  simp only [RocksDbRaftPersistenceStore.loadEntry, held, decoded]

theorem Stored.loadV2 (stored : Stored codec store.db state data) (formed : WellFormed state) :
    store.loadV2 (.fromState state data) = .ok (state, data) := by
  have entries : store.loadEntries (inclusiveRange (state.snapshotIndex + 1) state.lastLogIndex) =
      .ok ((inclusiveRange (state.snapshotIndex + 1) state.lastLogIndex).filterMap state.entryAt) :=
    loadEntries_eq fun index inside => stored.loadEntry formed (mem_inclusiveRange.mp inside).1
      (mem_inclusiveRange.mp inside).2
  rw [formed.entries, ← formed.saturatingSucc_eq formed.snapshotIndex_le] at entries
  have rebuilt : { term := state.snapshotTerm, index := state.snapshotIndex, command := [] } ::
      state.log.tail = state.log := by
    cases log : state.log with
    | nil =>
      have positive := formed.length_pos
      simp [log] at positive
    | cons sentinel rest =>
      have head := formed.sentinel
      rw [log] at head
      cases head
      rfl
  have boundary : ¬ state.lastLogIndex < state.snapshotIndex := not_lt.mpr formed.snapshotIndex_le
  simp only [RocksDbRaftPersistenceStore.loadV2, PersistedHardStateV2.fromState, if_neg boundary, entries,
    stored.snapshot, Option.getD_some, ne_eq, not_true, if_false, bind, Except.bind, rebuilt]
  rfl

end Load

section Runs

variable {codec : HardStateCodec} {store : RocksDbRaftPersistenceStore} {mem : Store} {state : PersistentState} {data : Bytes}

def savedBy (ops : List PersistenceOp) : List (PersistentState × Bytes) :=
  ops.filterMap fun
    | .save state snapshotData _ => some (state, snapshotData)
    | _ => none

/-- The saved states are well formed and agree with each other, and what is staged is a
snapshot with a 64-bit index and term. -/
structure Admissible (ops : List PersistenceOp) : Prop where
  formed : ∀ left ∈ savedBy ops, WellFormed left.1
  matching : ∀ left ∈ savedBy ops, ∀ right ∈ savedBy ops, LogMatching left.1 right.1
  bytes : ∀ left ∈ savedBy ops, ∀ right ∈ savedBy ops,
    left.1.snapshotIndex = right.1.snapshotIndex → left.2 = right.2
  staged : ∀ snapshot written, .stageSnapshot snapshot written ∈ ops →
    snapshot.lastIncludedIndex < 2 ^ 64 ∧ snapshot.lastIncludedTerm < 2 ^ 64

structure Unused (db : Database) : Prop where
  hard : (db .metadata).get raftHardStateKeyV2 = none
  legacy : (db .metadata).get raftStateKeyV1 = none
  snapshot : (db .metadata).get raftSnapshotKey = none
  staged : (db .metadata).get raftStagedSnapshotKey = none

structure Refines (codec : HardStateCodec) (ops : List PersistenceOp)
    (store : RocksDbRaftPersistenceStore) (mem : Store) : Prop where
  fresh : mem.active = none → (store.db .metadata).get raftHardStateKeyV2 = none ∧
    (store.db .metadata).get raftStateKeyV1 = none ∧ (store.db .metadata).get raftSnapshotKey = none
  active : ∀ state data, mem.active = some (state, data) → Stored codec store.db state data ∧
    (state, data) ∈ savedBy ops
  cache : ∀ hard, store.cachedHard = some hard →
    ∃ state data, mem.active = some (state, data) ∧ hard = .fromState state data
  staged : (store.db .metadata).get raftStagedSnapshotKey =
    mem.stagedSnapshot.map encodeStagedSnapshot
  range : ∀ snapshot, mem.stagedSnapshot = some snapshot →
    snapshot.lastIncludedIndex < 2 ^ 64 ∧ snapshot.lastIncludedTerm < 2 ^ 64

namespace Refines

variable {ops : List PersistenceOp}

theorem loadHardV2 (refines : Refines codec ops store mem) :
    store.loadHardV2 codec = .ok (mem.active.map fun active => .fromState active.1 active.2) := by
  cases active : mem.active with
  | none =>
    simp only [RocksDbRaftPersistenceStore.loadHardV2, (refines.fresh active).1, Option.map_none]
  | some pair =>
    simp only [RocksDbRaftPersistenceStore.loadHardV2, (refines.active pair.1 pair.2 active).1.hard,
      codec.hardFromSlice_toVec, Option.map_some]

theorem load (refines : Refines codec ops store mem) (admissible : Admissible ops) :
    (store.load codec).2 = .ok mem.active := by
  have hard := refines.loadHardV2
  cases active : mem.active with
  | none =>
    obtain ⟨_, legacy, snapshot⟩ := refines.fresh active
    rw [active] at hard
    simp only [RocksDbRaftPersistenceStore.load, hard, Option.map_none,
      RocksDbRaftPersistenceStore.loadV1, legacy, snapshot]
  | some pair =>
    obtain ⟨stored, inside⟩ := refines.active pair.1 pair.2 active
    rw [active] at hard
    simp only [RocksDbRaftPersistenceStore.load, hard, Option.map_some,
      stored.loadV2 (admissible.formed _ inside)]

theorem loading (refines : Refines codec ops store mem) : Refines codec ops (store.load codec).1 mem := by
  simp only [RocksDbRaftPersistenceStore.load, refines.loadHardV2]
  cases active : mem.active with
  | none => exact refines
  | some pair =>
    simp only [Option.map_some]
    split
    · exact refines
    · refine ⟨refines.fresh, refines.active, fun hard cached => ?_, refines.staged, refines.range⟩
      cases cached
      exact ⟨pair.1, pair.2, active, rfl⟩

theorem loadStagedSnapshot (refines : Refines codec ops store mem) :
    store.loadStagedSnapshot = .ok mem.stagedSnapshot := by
  have staged := refines.staged
  cases held : mem.stagedSnapshot with
  | none =>
    rw [held] at staged
    simp only [RocksDbRaftPersistenceStore.loadStagedSnapshot, staged, Option.map_none]
  | some snapshot =>
    obtain ⟨index, term⟩ := refines.range snapshot held
    rw [held] at staged
    simp only [RocksDbRaftPersistenceStore.loadStagedSnapshot, staged, Option.map_some,
      decodeStagedSnapshot_encode index term, Except.map]

theorem currentHardV2 (refines : Refines codec ops store mem) :
    ∃ cached, store.currentHardV2 codec = .ok (mem.active.map fun active =>
      .fromState active.1 active.2, { store with cachedHard := cached }) ∧
      Refines codec ops { store with cachedHard := cached } mem := by
  cases held : store.cachedHard with
  | none =>
    refine ⟨mem.active.map fun active => .fromState active.1 active.2, ?_, refines.fresh,
      refines.active, fun hard cached => ?_, refines.staged, refines.range⟩
    · simp only [RocksDbRaftPersistenceStore.currentHardV2, held, refines.loadHardV2, Except.map]
    obtain ⟨⟨state, data⟩, active, rfl⟩ := Option.map_eq_some_iff.mp cached
    exact ⟨state, data, active, rfl⟩
  | some hard =>
    obtain ⟨state, data, active, rfl⟩ := refines.cache hard held
    refine ⟨store.cachedHard, ?_, refines⟩
    show store.currentHardV2 codec = .ok (_, store)
    simp only [RocksDbRaftPersistenceStore.currentHardV2, held, active, Option.map_some]

theorem new {db : Database} (unused : Unused db) : Refines codec ops (.new db) .empty where
  fresh := fun _ => ⟨unused.hard, unused.legacy, unused.snapshot⟩
  active := fun _ _ active => by cases active
  cache := fun _ cached => by cases cached
  staged := unused.staged
  range := fun _ staged => by cases staged

theorem precedes (refines : Refines codec ops store mem) (admissible : Admissible ops)
    (inside : (state, data) ∈ savedBy ops) {hard : PersistedHardStateV2}
    (previous : (mem.active.map fun active => PersistedHardStateV2.fromState active.1 active.2) = some hard) :
    ∃ old oldData, hard = .fromState old oldData ∧ Precedes codec store.db old oldData state data := by
  obtain ⟨⟨old, oldData⟩, active, rfl⟩ := Option.map_eq_some_iff.mp previous
  obtain ⟨stored, earlier⟩ := refines.active old oldData active
  exact ⟨old, oldData, rfl, admissible.formed _ earlier, stored, admissible.matching _ earlier _ inside,
    admissible.bytes _ earlier _ inside⟩

theorem saved {batch : WriteBatch} (refines : Refines codec ops store mem) (admissible : Admissible ops)
    (inside : (state, data) ∈ savedBy ops)
    (encoded : RocksDbRaftPersistenceStore.saveBatch codec
      (mem.active.map fun active => .fromState active.1 active.2) state data = .ok batch) :
    Refines codec ops { db := store.db.writeBatch batch, cachedHard := some (.fromState state data) }
      (mem.save state data) := by
  have stored := stored_of_save (admissible.formed _ inside)
    (fun hard previous => refines.precedes admissible inside previous) encoded
  refine ⟨by simp [Store.save], fun other bytes active => ?_, fun hard cached => ?_, ?_,
    by simp [Store.save]⟩
  · cases active
    exact ⟨stored, inside⟩
  · cases cached
    exact ⟨state, data, rfl, rfl⟩
  · obtain ⟨changes, rewrite, shape, rfl, _⟩ := saveBatch_shape encoded
    have first : raftStagedSnapshotKey ≠ raftSnapshotKey := by decide
    have second : raftStagedSnapshotKey ≠ raftHardStateKeyV2 := by decide
    rw [saved_get shape.logOps (by decide), saveHeader_get]
    simp [first, second, Store.save]

theorem restage {value : Option Bytes} (refines : Refines codec ops store mem)
    (staged : Option StagedSnapshot) (same : value = staged.map encodeStagedSnapshot)
    (range : ∀ snapshot, staged = some snapshot →
      snapshot.lastIncludedIndex < 2 ^ 64 ∧ snapshot.lastIncludedTerm < 2 ^ 64) :
    Refines codec ops
      { store with db := store.db.writeBatch [⟨.metadata, raftStagedSnapshotKey, value⟩] }
      { mem with stagedSnapshot := staged } := by
  have other : ∀ key, key ≠ raftStagedSnapshotKey →
      (store.db.writeBatch [⟨.metadata, raftStagedSnapshotKey, value⟩] .metadata).get key =
        (store.db .metadata).get key := by
    intro key apart
    exact Database.get_untouched fun ⟨op, inside, _, target⟩ => apart (by
      rw [← target, List.mem_singleton.mp inside])
  refine ⟨fun none => ?_, fun state data active => ?_, refines.cache, ?_, range⟩
  · rw [other _ (by decide), other _ (by decide), other _ (by decide)]
    exact refines.fresh none
  · obtain ⟨stored, inside⟩ := refines.active state data active
    refine ⟨⟨?_, ?_, fun index above within => ?_⟩, inside⟩
    · rw [other _ (by decide)]
      exact stored.hard
    · rw [other _ (by decide)]
      exact stored.snapshot
    · obtain ⟨entry, bytes, found, code, held⟩ := stored.entries index above within
      exact ⟨entry, bytes, found, code, (other _ (raftLogKey_ne (by decide))).trans held⟩
  · rw [← same]
    simp [Database.writeBatch, Database.get_write]

theorem save_ok (refines : Refines codec ops store mem) (admissible : Admissible ops)
    (formed : WellFormed state) (short : ∀ entry ∈ state.log, entry.command.length < 2 ^ 32) :
    (store.save codec state data true).2 = .ok () := by
  have puts : ∀ first, state.snapshotIndex ≤ first →
      ∃ batch, putLogRange state first state.lastLogIndex = .ok batch := by
    intro first above
    refine putLogEntries_ok fun index inside => ?_
    obtain ⟨lower, within⟩ := mem_inclusiveRange.mp inside
    obtain ⟨entry, found, _⟩ := formed.exists_entry (above.trans lower) within
    exact ⟨entry, found, short entry (PersistentState.entryAt_mem found)⟩
  have boundary : state.snapshotIndex ≤ saturatingSucc state.snapshotIndex := by
    rw [formed.saturatingSucc_eq formed.snapshotIndex_le]
    exact Nat.le_succ _
  obtain ⟨full, whole⟩ := puts _ boundary
  obtain ⟨cached, current, _⟩ := refines.currentHardV2
  have batched : ∃ batch, RocksDbRaftPersistenceStore.saveBatch codec
      (mem.active.map fun active => .fromState active.1 active.2) state data = .ok batch := by
    cases active : mem.active with
    | none => exact ⟨_, bind_eq_ok.mpr ⟨full, whole, rfl⟩⟩
    | some pair =>
      obtain ⟨stored, inside⟩ := refines.active pair.1 pair.2 active
      have older := admissible.formed _ inside
      simp only [Option.map_some, RocksDbRaftPersistenceStore.saveBatch]
      split
      · exact ⟨_, bind_eq_ok.mpr ⟨full, whole, rfl⟩⟩
      · rename_i same
        have same : pair.1.snapshotIndex = state.snapshotIndex := not_not.mp same
        suffices changed : ∃ changes, RocksDbRaftPersistenceStore.logChanges
            (.fromState pair.1 pair.2) state = .ok changes by
          obtain ⟨changes, changed⟩ := changed
          exact ⟨_, bind_eq_ok.mpr ⟨changes, changed, rfl⟩⟩
        simp only [RocksDbRaftPersistenceStore.logChanges]
        split
        · rename_i matching
          have shorter : pair.1.lastLogIndex ≤ state.lastLogIndex := matching.1
          have begins : pair.1.snapshotIndex ≤ pair.1.lastLogIndex := older.snapshotIndex_le
          refine puts _ ?_
          show state.snapshotIndex ≤ saturatingSucc pair.1.lastLogIndex
          rw [formed.saturatingSucc_eq shorter]
          omega
        · rw [whole]
          exact ⟨_, rfl⟩
  obtain ⟨batch, encoded⟩ := batched
  simp only [RocksDbRaftPersistenceStore.save, current, encoded, if_true]

theorem step (refines : Refines codec ops store mem) (admissible : Admissible ops) {op : PersistenceOp}
    (inside : op ∈ ops) : Refines codec ops (store.exec codec op).1
      (if (store.exec codec op).2.isOk then memExec mem op else mem) := by
  cases op with
  | save state data written =>
    have listed : (state, data) ∈ savedBy ops := List.mem_filterMap.mpr ⟨_, inside, rfl⟩
    obtain ⟨cached, current, refines⟩ := refines.currentHardV2
    simp only [RocksDbRaftPersistenceStore.exec, RocksDbRaftPersistenceStore.save, current]
    split
    · exact refines
    · rename_i batch encoded
      split
      · exact refines.saved admissible listed encoded
      · exact refines
  | stageSnapshot snapshot written =>
    simp only [RocksDbRaftPersistenceStore.exec, RocksDbRaftPersistenceStore.stageSnapshot]
    split
    · refine refines.restage (some snapshot) rfl ?_
      rintro other ⟨⟩
      exact admissible.staged snapshot written inside
    · exact refines
  | clearStagedSnapshot written =>
    simp only [RocksDbRaftPersistenceStore.exec, RocksDbRaftPersistenceStore.clearStagedSnapshot]
    split
    · exact refines.restage none rfl (by simp)
    · exact refines
  | load =>
    have same : (if (store.exec codec .load).2.isOk then memExec mem .load else mem) = mem :=
      ite_self mem
    rw [same]
    exact refines.loading
  | reopen =>
    exact ⟨refines.fresh, refines.active, fun hard cached => (by cases cached), refines.staged,
      refines.range⟩

end Refines

def lockstep (codec : HardStateCodec) (stores : RocksDbRaftPersistenceStore × Store)
    (op : PersistenceOp) : RocksDbRaftPersistenceStore × Store :=
  let (store, result) := stores.1.exec codec op
  (store, if result.isOk then memExec stores.2 op else stores.2)

theorem Refines.run {ops done : List PersistenceOp} {stores : RocksDbRaftPersistenceStore × Store}
    (refines : Refines codec ops stores.1 stores.2) (admissible : Admissible ops)
    (inside : ∀ op ∈ done, op ∈ ops) :
    Refines codec ops (done.foldl (lockstep codec) stores).1 (done.foldl (lockstep codec) stores).2 := by
  induction done generalizing stores with
  | nil => exact refines
  | cons op rest induction =>
    exact induction (refines.step admissible (inside op List.mem_cons_self))
      fun op later => inside op (List.mem_cons_of_mem _ later)

/-- After any operations the store loads what the in-memory one loads, and the same
staged snapshot; of the writes that the engine takes only a save can fail, for a command of
4 GiB or more. -/
theorem persistence_refines_mem (codec : HardStateCodec) (db : Database) (unused : Unused db)
    (ops : List PersistenceOp) (admissible : Admissible ops) :
    let (store, mem) := ops.foldl (lockstep codec) (.new db, .empty)
    (store.load codec).2 = .ok mem.active ∧ store.loadStagedSnapshot = .ok mem.stagedSnapshot ∧
      (∀ state data, WellFormed state → (∀ entry ∈ state.log, entry.command.length < 2 ^ 32) →
        (store.save codec state data true).2 = .ok ()) ∧
      (∀ snapshot, (store.stageSnapshot snapshot true).2 = .ok ()) ∧ (store.clearStagedSnapshot true).2 = .ok () := by
  have refines : Refines codec ops (ops.foldl (lockstep codec) (.new db, .empty)).1
      (ops.foldl (lockstep codec) (.new db, .empty)).2 :=
    Refines.run (Refines.new unused) admissible fun _ inside => inside
  exact ⟨refines.load admissible, refines.loadStagedSnapshot,
    fun state data formed short => refines.save_ok admissible formed short, fun snapshot => rfl, rfl⟩

def hardStateCode : PrefixCode PersistedHardStateV2 :=
  ((PrefixCode.nat.pair (PrefixCode.string.option.pair (PrefixCode.nat.pair PrefixCode.nat))).pair
    (membershipCode.option.pair (PrefixCode.nat.pair (PrefixCode.nat.pair PrefixCode.nat)))).via
    (fun hard => ((hard.currentTerm, hard.votedFor, hard.snapshotIndex, hard.snapshotTerm),
      hard.membership, hard.lastLogIndex, hard.lastLogTerm, hard.snapshotBytesLen))
    (fun fields => ⟨fields.1.1, fields.1.2.1, fields.1.2.2.1, fields.1.2.2.2, fields.2.1, fields.2.2.1,
      fields.2.2.2.1, fields.2.2.2.2⟩) fun _ => rfl

def plainHardState : HardStateCodec where
  hardToVec := hardStateCode.encode
  hardFromSlice := parse hardStateCode
  hardFromSlice_toVec := parse_encode hardStateCode
  stateFromSlice := fun _ => .error "malformed"

def firstState : PersistentState :=
  { PersistentState.new with
    currentTerm := 1
    log := [⟨0, 0, []⟩, ⟨1, 1, [7]⟩, ⟨1, 2, [8]⟩] }

def overwrittenState : PersistentState :=
  { PersistentState.new with
    currentTerm := 2
    log := [⟨0, 0, []⟩, ⟨1, 1, [7]⟩, ⟨2, 2, [9]⟩, ⟨2, 3, [5]⟩] }

def compactedState : PersistentState :=
  { overwrittenState with
    log := [⟨2, 2, []⟩, ⟨2, 3, [5]⟩]
    snapshotIndex := 2
    snapshotTerm := 2 }

def persistenceOps : List PersistenceOp :=
  [.save firstState [] true, .reopen, .save overwrittenState [] true,
    .stageSnapshot ⟨.creation, 2, 2, [4]⟩ true, .save compactedState [4] true,
    .stageSnapshot ⟨.creation, 3, 2, [6]⟩ true]

theorem persistence_refines_mem_compacted :
    ((persistenceOps.foldl (lockstep plainHardState) (.new .empty, .empty)).1.load plainHardState).2 =
        .ok (some (compactedState, [4])) ∧
      (persistenceOps.foldl (lockstep plainHardState) (.new .empty, .empty)).1.loadStagedSnapshot =
        .ok (some ⟨.creation, 3, 2, [6]⟩) := by
  have admissible : Admissible persistenceOps := by
    refine ⟨?_, ?_, ?_, ?_⟩
    · simp only [persistenceOps, savedBy, List.filterMap_cons, List.filterMap_nil, List.forall_mem_cons]
      exact ⟨⟨by decide, by decide, by decide, by decide⟩, ⟨by decide, by decide, by decide, by decide⟩,
        ⟨by decide, by decide, by decide, by decide⟩, by simp⟩
    · unfold LogMatching
      decide
    · decide
    · rintro snapshot written inside
      simp [persistenceOps] at inside
      rcases inside with inside | inside
      · rw [inside.1]
        decide
      · rw [inside.1]
        decide
  obtain ⟨loads, staged, -⟩ := persistence_refines_mem plainHardState .empty ⟨rfl, rfl, rfl, rfl⟩ persistenceOps
    admissible
  exact ⟨loads.trans (by decide +kernel), staged.trans (by decide +kernel)⟩

end Runs

end Neuralbase.Persistence
