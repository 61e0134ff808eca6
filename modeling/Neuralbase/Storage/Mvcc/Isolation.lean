import Neuralbase.Storage.Mvcc.Timely

namespace Neuralbase.Storage

open Neuralbase.Library
open Neuralbase.Consensus (Bytes)
open TransactionManager

/-! Snapshot isolation over whole runs: which commits can overlap, and what a
transaction reads.  Every stored version is found through a reverse seek over
`[table][pk][ts]`, so both results need the seeks to land on the key they are for. -/

def ChecksOwn (m : TransactionManager) : TxnAction → Prop
  | .commitCheck t => ∀ tx ∈ m.txns t, ∀ write ∈ tx.writes,
      SeeksOwn m.data write.tableId write.pk .max
  | _ => True

def ReadsOwn (m : TransactionManager) : TxnAction → Prop
  | .read t tableId pk => ∀ tx ∈ m.txns t, SeeksOwn m.data tableId pk tx.snapshotTs
  | _ => True

instance : DecidableRel ChecksOwn := fun _ a =>
  match a with
  | .commitCheck _ => inferInstanceAs (Decidable (∀ tx ∈ _, ∀ write ∈ _, _))
  | .beginTick _ _ | .beginRegister _ | .write _ _ _ _ | .read _ _ _ | .commitTick _ _
  | .commitWrite _ _ | .commitFinish _ | .rollback _ | .nextTimestamp _ => .isTrue trivial

instance : DecidableRel ReadsOwn := fun _ a =>
  match a with
  | .read _ _ _ => inferInstanceAs (Decidable (∀ tx ∈ _, _))
  | .beginTick _ _ | .beginRegister _ | .write _ _ _ _ | .commitCheck _ | .commitTick _ _
  | .commitWrite _ _ | .commitFinish _ | .rollback _ | .nextTimestamp _ => .isTrue trivial

/-- What holds when a step adds `event` and leaves `data` in the store. -/
def Emits (m : TransactionManager) (a : TxnAction) (data : ColumnFamily) : TxnEvent → Prop
  | .began _ _ | .wrote _ _ _ => data = m.data
  | .read t snapshotTs tableId pk result => data = m.data ∧ a = .read t tableId pk ∧
      ∃ tx, m.txns t = some tx ∧ tx.snapshotTs = snapshotTs ∧ m.read tx tableId pk = result
  | .committed t snapshotTs commitTs writes => data = putRows m.data commitTs writes ∧
      ∃ tx, m.txns t = some tx ∧ tx.phase = .stamped commitTs ∧ tx.snapshotTs = snapshotTs ∧
        tx.writes = writes
  | .conflicted t snapshotTs writes => data = m.data ∧ a = .commitCheck t ∧
      ∃ tx, m.txns t = some tx ∧ tx.phase = .active ∧ tx.snapshotTs = snapshotTs ∧
        tx.writes = writes ∧ ∃ write ∈ writes, m.hasConflictingVersion write snapshotTs = true

theorem TxnStep.emits {m next : TransactionManager} {a : TxnAction} (step : TxnStep m a next) :
    (next.history = m.history ∧ next.data = m.data) ∨
      ∃ event, next.history = m.history ++ [event] ∧ Emits m a next.data event := by
  cases step with
  | beginTick | write => exact .inr ⟨_, rfl, rfl⟩
  | read t tx tableId pk running phase => exact .inr ⟨_, rfl, rfl, rfl, tx, running, rfl, rfl⟩
  | conflict t tx write free running phase inside newer =>
    exact .inr ⟨_, rfl, rfl, rfl, tx, running, phase, rfl, rfl, write, inside, newer⟩
  | commitWrite t tx commitTs running phase =>
    exact .inr ⟨_, rfl, rfl, tx, running, phase, rfl, rfl⟩
  | beginRegister | check | commitTick | commitFail | commitFinish | rollback | nextTimestamp =>
    exact .inl ⟨rfl, rfl⟩

def SharedKey (left right : List RowWrite) : Prop :=
  ∃ write ∈ left, ∃ other ∈ right, other.IsTo write.tableId write.pk

section FirstCommitter

variable {start m next : TransactionManager} {a : TxnAction}

def Unchallenged (data : ColumnFamily) (tx : Transaction) : Prop :=
  ∀ write ∈ tx.writes, ∀ ts, versionsOf data write.tableId write.pk ts ≠ none → ts ≤ tx.snapshotTs

def CheckedHolds (m : TransactionManager) : Prop :=
  ∀ t tx, m.txns t = some tx → tx.phase = .checked ∨ (∃ commitTs, tx.phase = .stamped commitTs) →
    Unchallenged m.data tx

theorem unchallenged_of_check {tx : Transaction}
    (own : ∀ write ∈ tx.writes, SeeksOwn m.data write.tableId write.pk .max)
    (clean : ∀ write ∈ tx.writes, m.hasConflictingVersion write tx.snapshotTs = false) : Unchallenged m.data tx := by
  intro write inside ts found
  have latest := latestVisibleTsAny_spec (own write inside)
  have clean := clean write inside
  unfold hasConflictingVersion at clean
  split at latest
  · exact absurd (latest ts) found
  · rename_i newest there
    rw [there] at clean
    exact (latest.2 ts found).trans (not_lt.mp (of_decide_eq_false clean))

theorem newer_of_conflict {write : RowWrite} {snapshotTs : HlcTimestamp}
    (own : SeeksOwn m.data write.tableId write.pk .max) (newer : m.hasConflictingVersion write snapshotTs = true) :
    ∃ ts, snapshotTs < ts ∧ versionsOf m.data write.tableId write.pk ts ≠ none := by
  have latest := latestVisibleTsAny_spec own
  unfold hasConflictingVersion at newer
  split at latest
  · rename_i absent
    rw [absent] at newer
    cases newer
  · rename_i newest there
    rw [there] at newer
    exact ⟨newest, of_decide_eq_true newer, latest.1⟩

theorem CheckedHolds.move {t : TxnHandle} {moved : Transaction} (holds : CheckedHolds m)
    (txns : next.txns = Function.update m.txns t (some moved)) (data : next.data = m.data)
    (ok : moved.phase = .checked ∨ (∃ commitTs, moved.phase = .stamped commitTs) →
      Unchallenged m.data moved) : CheckedHolds next := by
  intro other tx running phase
  rw [data]
  rw [txns] at running
  by_cases same : other = t
  · subst same
    have same : moved = tx := by simpa using running
    exact same ▸ ok (same ▸ phase)
  · exact holds other tx (by simpa [same] using running) phase

theorem CheckedHolds.step (timely : Timely start m) (own : ChecksOwn m a) (holds : CheckedHolds m)
    (step : TxnStep m a next) : CheckedHolds next := by
  cases step with
  | beginTick t wall fresh => exact holds.move rfl rfl (by simp [Transaction.new])
  | beginRegister t tx running phase => exact holds.move rfl rfl (by simp)
  | write t tx tableId pk value running phase =>
    exact holds.move rfl rfl (by simp [Transaction.write, phase])
  | read t tx tableId pk running phase => exact holds
  | conflict t tx write free running phase inside newer => exact holds.move rfl rfl (by simp)
  | check t tx free running phase clean =>
    exact holds.move rfl rfl fun _ => unchallenged_of_check (own tx running) clean
  | commitTick t tx wall running phase =>
    exact holds.move rfl rfl fun _ => holds t tx running (.inl phase)
  | commitWrite t tx commitTs running phase =>
    -- nobody else is past its check, since the serializer is held
    intro other held there ahead
    by_cases same : other = t
    · subst same
      have same : held = { tx with phase := .written } := by
        simpa [setTxn, record, eq_comm] using there
      subst same
      simp at ahead
    · have there : m.txns other = some held := by
        simpa [setTxn, record, same] using there
      have owner := (timely.txns t tx running).holder (by rw [phase]; trivial)
      have rival := (timely.txns other held there).holder (by
        rcases ahead with ahead | ⟨ts, ahead⟩ <;> rw [ahead] <;> trivial)
      rw [owner] at rival
      exact absurd (Option.some.inj rival).symm same
  | commitFail t tx commitTs running phase => exact holds.move rfl rfl (by simp)
  | commitFinish t tx running phase => exact holds.move rfl rfl (by simp)
  | rollback t tx running phase => exact holds.move rfl rfl (by simp)
  | nextTimestamp wall => exact holds

/-- A committed transaction comes after all snapshots drawn before it, and has seen every
earlier commit to its keys. -/
def WinsOver (before : List TxnEvent) (snapshotTs commitTs : HlcTimestamp) (writes : List RowWrite) : Prop :=
  (∀ t ts, .began t ts ∈ before → ts < commitTs) ∧
    ∀ t s ts others, .committed t s ts others ∈ before → SharedKey others writes → ts ≤ snapshotTs

/-- Some key of the batch has a version newer than the snapshot, and it is somebody else's. -/
def LostTo (start : TransactionManager) (before : List TxnEvent) (t : TxnHandle)
    (snapshotTs : HlcTimestamp) (writes : List RowWrite) : Prop :=
  ∃ write ∈ writes, ∃ ts, snapshotTs < ts ∧
    (versionsOf start.data write.tableId write.pk ts ≠ none ∨
      ∃ other s others, other ≠ t ∧ .committed other s ts others ∈ before ∧
        ∃ rival ∈ others, rival.IsTo write.tableId write.pk)

def OutcomeOk (start : TransactionManager) (before : List TxnEvent) : TxnEvent → Prop
  | .committed _ snapshotTs commitTs writes => WinsOver before snapshotTs commitTs writes
  | .conflicted t snapshotTs writes => LostTo start before t snapshotTs writes
  | _ => True

theorem winsOver_of_stamped {t : TxnHandle} {tx : Transaction} {commitTs : HlcTimestamp}
    (timely : Timely start m) (holds : CheckedHolds m) (running : m.txns t = some tx)
    (stamped : tx.phase = .stamped commitTs) : WinsOver m.history tx.snapshotTs commitTs tx.writes := by
  refine ⟨((timely.txns t tx running).stamp commitTs stamped).snapshots, ?_⟩
  rintro other s ts others inside ⟨rival, there, write, here, table, primary⟩
  have stored := (timely.commits other s ts others inside).stored rival there
  refine holds t tx running (.inr ⟨commitTs, stamped⟩) write here ts ?_
  rw [table, primary, stored]
  simp

theorem lostTo_of_conflict {t : TxnHandle} {tx : Transaction} {write : RowWrite}
    (timely : Timely start m) (running : m.txns t = some tx) (active : tx.phase = .active)
    (inside : write ∈ tx.writes) (own : SeeksOwn m.data write.tableId write.pk .max)
    (newer : m.hasConflictingVersion write tx.snapshotTs = true) :
    LostTo start m.history t tx.snapshotTs tx.writes := by
  obtain ⟨ts, later, found⟩ := newer_of_conflict own newer
  obtain ⟨value, found⟩ := Option.ne_none_iff_exists'.mp found
  refine ⟨write, inside, ts, later, ?_⟩
  rcases timely.origin _ _ ts value found with initial | ⟨other, s, others, done, rival, there, same, _⟩
  · exact .inl (by simp [initial])
  · refine .inr ⟨other, s, others, ?_, done, rival, there, same⟩
    rintro rfl
    obtain ⟨ended, again, phase⟩ := (timely.commits other s ts others done).ended
    rw [running] at again
    cases again
    rw [active] at phase
    rcases phase with phase | phase <;> cases phase

structure FirstWins (start m : TransactionManager) : Prop where
  timely : Timely start m
  checked : CheckedHolds m
  outcomes : EachAfter (OutcomeOk start) m.history

theorem FirstWins.initial (settled : Settled start) : FirstWins start start := by
  refine ⟨.initial settled, ?_, ?_⟩ <;> rw [settled.fresh]
  · intro t tx running
    cases running
  · exact eachAfter_nil

theorem FirstWins.step (permits : Orderly m a ∧ ChecksOwn m a) (holds : FirstWins start m)
    (step : TxnStep m a next) : FirstWins start next := by
  obtain ⟨timely, checked, outcomes⟩ := holds
  refine ⟨timely.step permits.1 step, checked.step timely permits.2 step, ?_⟩
  rcases step.emits with ⟨same, _⟩ | ⟨event, grown, emitted⟩
  · rwa [same]
  rw [grown]
  refine eachAfter_concat.mpr ⟨outcomes, ?_⟩
  cases event with
  | began | wrote | read => trivial
  | committed t snapshotTs commitTs writes =>
    obtain ⟨_, tx, running, stamped, rfl, rfl⟩ := emitted
    exact winsOver_of_stamped timely checked running stamped
  | conflicted t snapshotTs writes =>
    obtain ⟨_, rfl, tx, running, active, rfl, rfl, write, inside, newer⟩ := emitted
    exact lostTo_of_conflict timely running active inside
      (permits.2 tx running write inside) newer

theorem SharedKey.symm {left right : List RowWrite} (shared : SharedKey left right) : SharedKey right left := by
  obtain ⟨write, inside, other, there, table, primary⟩ := shared
  exact ⟨other, there, write, inside, table.symm, primary.symm⟩

theorem FirstWins.later_begins {t t' : TxnHandle} {s s' c c' : HlcTimestamp}
    {writes writes' : List RowWrite} (holds : FirstWins start m)
    (begins : Before m.history (.began t s) (.committed t' s' c' writes'))
    (order : Before m.history (.committed t' s' c' writes') (.committed t s c writes)) :
    ¬ SharedKey writes' writes := by
  intro shared
  obtain ⟨before, begun, wins⟩ := begins.at_second holds.outcomes
  obtain ⟨earlier, done, sees⟩ := order.at_second holds.outcomes
  exact absurd (wins.1 t s begun) (not_lt.mpr (sees.2 t' s' c' writes' done shared))

/-- Two transactions that each began before the other committed have no key in common,
and a write conflict is only reported for a key that somebody else has committed with a
timestamp above the snapshot. -/
def FirstCommitterWins (start m : TransactionManager) : Prop :=
  (∀ t s c writes t' s' c' writes', t ≠ t' →
    Before m.history (.began t s) (.committed t' s' c' writes') →
    Before m.history (.began t' s') (.committed t s c writes) → ¬ SharedKey writes writes') ∧
  ∀ before t s writes after, m.history = before ++ .conflicted t s writes :: after →
    LostTo start before t s writes

theorem first_committer_wins (settled : Settled start)
    (run : TxnRun (fun m a => Orderly m a ∧ ChecksOwn m a) start m) : FirstCommitterWins start m := by
  have holds : FirstWins start m := run.invariant (FirstWins.initial settled) fun permits holds step =>
    holds.step permits step
  refine ⟨fun t s c writes t' s' c' writes' apart first second shared => ?_,
    fun before t s writes after split => holds.outcomes before _ after split⟩
  rcases before_or_before first.mem_second second.mem_second (by simp [Ne.symm apart])
    with order | order
  · exact holds.later_begins first order shared.symm
  · exact holds.later_begins second order shared

def blank : TransactionManager := .new .empty .zero

theorem blank_settled : Settled blank := ⟨rfl, by decide⟩

def writeOf (value : UInt8) : RowWrite := { tableId := 7, pk := [97], value := [value] }

def begins (t : TxnHandle) (wall : Nat) : List TxnAction := [.beginTick t wall, .beginRegister t]

def writes (t : TxnHandle) (pk : Bytes) (value : UInt8) (wall : Nat) : List TxnAction :=
  [.write t 7 pk [value], .commitCheck t, .commitTick t wall, .commitWrite t true, .commitFinish t]

theorem first_committer_wins_race :
    ∃ m, TxnRun (fun m a => Orderly m a ∧ ChecksOwn m a) blank m ∧
      ∃ before, LostTo blank before 2 ⟨1, 1⟩ [writeOf 2] := by
  obtain ⟨m, run, rejected⟩ : ∃ m, TxnRun (fun m a => Orderly m a ∧ ChecksOwn m a) blank m ∧
      .conflicted 2 ⟨1, 1⟩ [writeOf 2] ∈ m.history := exists_run (_ ∈ ·)
    (begins 1 1 ++ begins 2 1 ++ writes 1 [97] 1 1 ++ [.write 2 7 [97] [2], .commitCheck 2])
    (by decide +kernel)
  obtain ⟨before, after, split⟩ := List.append_of_mem rejected
  exact ⟨m, run, before, (first_committer_wins blank_settled run).2 before _ _ _ after split⟩

def BothCommit (first second : HlcTimestamp × HlcTimestamp) (history : List TxnEvent) : Prop :=
  [.began 1 first.1, .committed 2 second.1 second.2 [writeOf 2]].Sublist history ∧
    [.began 2 second.1, .committed 1 first.1 first.2 [writeOf 1]].Sublist history

instance (first second : HlcTimestamp × HlcTimestamp) :
    DecidablePred (BothCommit first second) := fun _ => inferInstanceAs (Decidable (_ ∧ _))

theorem BothCommit.refutes {first second : HlcTimestamp × HlcTimestamp}
    (both : BothCommit first second m.history) : ¬ FirstCommitterWins start m := by
  intro wins
  exact wins.1 1 _ _ _ 2 _ _ _ (by decide) (before_of_sublist both.1) (before_of_sublist both.2)
    ⟨writeOf 1, by simp, writeOf 2, by simp, rfl, rfl⟩

def TxnEvent.commitsTo (tableId : UInt32) (pk : Bytes) : TxnEvent → Bool
  | .committed _ _ _ writes => writes.any fun write => decide (write.IsTo tableId pk)
  | _ => false

def Spurious (history : List TxnEvent) : Prop :=
  .conflicted 1 ⟨1, 0⟩ [writeOf 1] ∈ history ∧ ∀ event ∈ history, event.commitsTo 7 [97] = false

instance : DecidablePred Spurious := fun _ => inferInstanceAs (Decidable (_ ∧ ∀ event ∈ _, _))

theorem Spurious.refutes (spurious : Spurious m.history) : ¬ FirstCommitterWins blank m := by
  intro wins
  obtain ⟨before, after, split⟩ := List.append_of_mem spurious.1
  obtain ⟨write, inside, ts, _, initial | ⟨other, s, others, _, done, rival, there, same⟩⟩ :=
    wins.2 before _ _ _ after split
  · exact initial (by simp [versionsOf, blank, TransactionManager.new, SortedMap.get, SortedMap.empty])
  · rw [List.mem_singleton.mp inside] at same
    have clean := spurious.2 _ (by rw [split]; exact List.mem_append_left _ done)
    exact List.any_eq_false.mp clean rival there (decide_eq_true same)

/-- Each of the three conditions is needed: a transaction may begin between another's
commit timestamp and its write and see neither a conflict nor the write; a version of
`a\x05` is taken for one of `a`; and a timestamp beyond 48 bits is stored as an old one. -/
theorem overlapping_commits :
    (∃ m, TxnRun (fun m a => ClockFits m a ∧ ChecksOwn m a) blank m ∧ ¬ FirstCommitterWins blank m) ∧
    (∃ m, TxnRun Orderly blank m ∧ ¬ FirstCommitterWins blank m) ∧
    ∃ m, TxnRun (fun m a => BeginsOutsideCommit m a ∧ ChecksOwn m a) blank m ∧
      ¬ FirstCommitterWins blank m := by
  refine ⟨?_, ?_, ?_⟩
  · obtain ⟨m, run, both⟩ : ∃ m, TxnRun (fun m a => ClockFits m a ∧ ChecksOwn m a) blank m ∧
        BothCommit (⟨1, 0⟩, ⟨1, 1⟩) (⟨1, 2⟩, ⟨1, 3⟩) m.history :=
      exists_run (BothCommit _ _) (begins 1 1 ++ [.write 1 7 [97] [1], .commitCheck 1, .commitTick 1 1] ++
        begins 2 1 ++ [.commitWrite 1 true, .commitFinish 1] ++ writes 2 [97] 2 1) (by decide +kernel)
    exact ⟨m, run, both.refutes⟩
  · obtain ⟨m, run, spurious⟩ : ∃ m, TxnRun Orderly blank m ∧ Spurious m.history :=
      exists_run Spurious (begins 1 1 ++ begins 2 1 ++ writes 2 [97, 5] 2 1 ++
        [.write 1 7 [97] [1], .commitCheck 1]) (by decide +kernel)
    exact ⟨m, run, spurious.refutes⟩
  · obtain ⟨m, run, both⟩ : ∃ m, TxnRun (fun m a => BeginsOutsideCommit m a ∧ ChecksOwn m a) blank m ∧
        BothCommit (⟨2 ^ 48 - 1, 0⟩, ⟨2 ^ 48, 0⟩) (⟨2 ^ 48 - 1, 1⟩, ⟨2 ^ 48, 1⟩) m.history :=
      exists_run (BothCommit _ _) (begins 1 (2 ^ 48 - 1) ++ begins 2 (2 ^ 48 - 1) ++
        writes 1 [97] 1 (2 ^ 48) ++ writes 2 [97] 2 (2 ^ 48)) (by decide +kernel)
    exact ⟨m, run, both.refutes⟩

end FirstCommitter

section Reads

variable {start m next : TransactionManager} {a : TxnAction} {tableId : UInt32} {pk : Bytes}
  {snapshotTs : HlcTimestamp}

/-- `result` is the value of the committed version with the greatest commit timestamp
that is not above the snapshot. -/
def AtSnapshot (start m : TransactionManager) (tableId : UInt32) (pk : Bytes)
    (snapshotTs : HlcTimestamp) : Option Bytes → Prop
  | none => ∀ ts ≤ snapshotTs, ∀ value, ¬ Committed start m tableId pk ts value
  | some value => ∃ ts ≤ snapshotTs, Committed start m tableId pk ts value ∧
      ∀ other ≤ snapshotTs, ∀ held, Committed start m tableId pk other held → other ≤ ts

theorem Timely.stored_of_committed {ts : HlcTimestamp} {value : Bytes} (timely : Timely start m)
    (committed : Committed start m tableId pk ts value) : versionsOf m.data tableId pk ts ≠ none := by
  rcases committed with initial | ⟨t, s, writes, done, write, inside, ⟨rfl, rfl⟩, _⟩
  · exact timely.kept _ _ ts (by simp [initial])
  · simp [(timely.commits t s ts writes done).stored write inside]

theorem Timely.atSnapshot {result : Option Bytes} (timely : Timely start m)
    (newest : Newest (versionsOf m.data tableId pk) snapshotTs result) :
    AtSnapshot start m tableId pk snapshotTs result := by
  cases result with
  | none =>
    intro ts below value committed
    exact timely.stored_of_committed committed (newest ts below)
  | some value =>
    obtain ⟨ts, below, found, greatest⟩ := newest
    exact ⟨ts, below, timely.origin _ _ ts value found,
      fun other under held committed => greatest other under (timely.stored_of_committed committed)⟩

theorem readOwnWrite_eq_none {t : TxnHandle} {tx : Transaction} (ok : TxnOk m t tx)
    (unwritten : .wrote t tableId pk ∉ m.history) : tx.readOwnWrite tableId pk = none := by
  refine Option.map_eq_none_iff.mpr (List.find?_eq_none.mpr fun write inside => ?_)
  have recorded := ok.wrote write (List.mem_reverse.mp inside)
  refine fun same => unwritten ?_
  obtain ⟨rfl, rfl⟩ := of_decide_eq_true same
  exact recorded

/-- What a read has returned is still the newest version at its snapshot in `data`. -/
def ReadOk (data : ColumnFamily) (before : List TxnEvent) : TxnEvent → Prop
  | .read t snapshotTs tableId pk result => .began t snapshotTs ∈ before ∧
      (.wrote t tableId pk ∉ before → Newest (versionsOf data tableId pk) snapshotTs result)
  | _ => True

structure StableReads (start m : TransactionManager) : Prop where
  timely : Timely start m
  begun : ∀ t ts, .began t ts ∈ m.history → ∃ tx, m.txns t = some tx ∧ tx.snapshotTs = ts
  reads : EachAfter (ReadOk m.data) m.history

theorem TransactionManager.setTxn_snapshot {t other : TxnHandle} {tx old moved : Transaction}
    (running : m.txns t = some tx) (found : m.txns other = some old) (same : moved.snapshotTs = old.snapshotTs) :
    ∃ later, (m.setTxn other moved).txns t = some later ∧ later.snapshotTs = tx.snapshotTs := by
  by_cases here : t = other
  · subst here
    rw [running] at found
    cases found
    exact ⟨moved, setTxn_self, same⟩
  · exact ⟨tx, (setTxn_other here).trans running, rfl⟩

theorem TxnStep.snapshot_kept {t : TxnHandle} {tx : Transaction} (step : TxnStep m a next)
    (running : m.txns t = some tx) : ∃ later, next.txns t = some later ∧ later.snapshotTs = tx.snapshotTs := by
  cases step with
  | beginTick other wall fresh =>
    have apart : t ≠ other := by
      rintro rfl
      rw [fresh] at running
      cases running
    exact ⟨tx, (setTxn_other apart).trans running, rfl⟩
  | read | nextTimestamp => exact ⟨tx, running, rfl⟩
  | beginRegister other old found | write other old tableId pk value found
  | conflict other old write free found | check other old free found
  | commitTick other old wall found | commitWrite other old commitTs found
  | commitFail other old commitTs found | commitFinish other old found | rollback other old found =>
    exact setTxn_snapshot running found rfl

theorem TxnStep.snapshot_drawn {t : TxnHandle} {ts : HlcTimestamp} (step : TxnStep m a next)
    (began : .began t ts ∈ next.history) :
    .began t ts ∈ m.history ∨ ∃ tx, next.txns t = some tx ∧ tx.snapshotTs = ts := by
  cases step with
  | beginTick other wall fresh =>
    rcases mem_record.mp began with old | new
    · exact .inl old
    · cases new
      exact .inr ⟨_, setTxn_self, rfl⟩
  | write | read | conflict | commitWrite =>
    exact .inl ((mem_record.mp began).resolve_right (by simp))
  | beginRegister | check | commitTick | commitFail | commitFinish | rollback | nextTimestamp =>
    exact .inl began

theorem ReadOk.frame {data later : ColumnFamily} {before : List TxnEvent} {event : TxnEvent}
    (ok : ReadOk data before event) (same : ∀ t ts, .began t ts ∈ before → ∀ tableId pk, ∀ stamp ≤ ts,
      versionsOf later tableId pk stamp = versionsOf data tableId pk stamp) : ReadOk later before event := by
  cases event with
  | read t snapshotTs tableId pk result =>
    obtain ⟨begun, newest⟩ := ok
    exact ⟨begun, fun unwritten => (newest unwritten).congr (same t snapshotTs begun tableId pk)⟩
  | began | wrote | committed | conflicted => trivial

theorem StableReads.initial (settled : Settled start) : StableReads start start := by
  refine ⟨.initial settled, ?_, ?_⟩ <;> rw [settled.fresh]
  · intro t ts began
    cases began
  · exact eachAfter_nil

theorem readOk_of_read {t : TxnHandle} {tx : Transaction} (timely : Timely start m)
    (running : m.txns t = some tx) (own : SeeksOwn m.data tableId pk tx.snapshotTs) :
    ReadOk m.data m.history (.read t tx.snapshotTs tableId pk (m.read tx tableId pk)) := by
  have ok := timely.txns t tx running
  have fits := timely.clockFits.of_le (timely.snapshots t tx.snapshotTs ok.begun)
  refine ⟨ok.begun, fun unwritten => ?_⟩
  rw [TransactionManager.read, readOwnWrite_eq_none ok unwritten]
  exact readLatest_newest own fits

theorem StableReads.step (permits : Orderly m a ∧ ReadsOwn m a) (stable : StableReads start m)
    (step : TxnStep m a next) : StableReads start next := by
  obtain ⟨timely, begun, reads⟩ := stable
  refine ⟨timely.step permits.1 step, fun t ts began => ?_, ?_⟩
  · rcases step.snapshot_drawn began with old | new
    · obtain ⟨tx, running, rfl⟩ := begun t ts old
      exact step.snapshot_kept running
    · exact new
  rcases step.emits with ⟨same, data⟩ | ⟨event, grown, emitted⟩
  · rwa [same, data]
  rw [grown]
  cases event with
  | began | wrote =>
    rw [show next.data = m.data from emitted]
    exact eachAfter_concat.mpr ⟨reads, trivial⟩
  | conflicted t snapshotTs writes =>
    rw [emitted.1]
    exact eachAfter_concat.mpr ⟨reads, trivial⟩
  | read t snapshotTs tableId pk result =>
    obtain ⟨data, rfl, tx, running, rfl, rfl⟩ := emitted
    rw [data]
    exact eachAfter_concat.mpr ⟨reads, readOk_of_read timely running (permits.2 tx running)⟩
  | committed t snapshotTs commitTs writes =>
    obtain ⟨data, tx, running, stamped, rfl, rfl⟩ := emitted
    have stamp := (timely.txns t tx running).stamp commitTs stamped
    rw [data]
    refine eachAfter_concat.mpr ⟨reads.mono_within fun before event within ok => ok.frame ?_, trivial⟩
    -- the batch is above every snapshot drawn so far
    intro other ts began tableId pk stamped below
    have above := stamp.snapshots other ts (within _ began)
    exact versionsOf_putRows_ne (timely.clockFits.of_le stamp.reached) (below.trans_lt above).ne

/-- Reads of a key the transaction has not written return what was committed last at its
snapshot, and the same value every time. -/
def SnapshotStable (start m : TransactionManager) : Prop :=
  ∀ before t s tableId pk result after,
    m.history = before ++ .read t s tableId pk result :: after → .wrote t tableId pk ∉ before →
    AtSnapshot start m tableId pk s result ∧
      ∀ s' again, .read t s' tableId pk again ∈ before → again = result

theorem snapshot_stability (settled : Settled start)
    (run : TxnRun (fun m a => Orderly m a ∧ ReadsOwn m a) start m) : SnapshotStable start m := by
  have stable : StableReads start m := run.invariant (StableReads.initial settled)
    fun permits stable step => stable.step permits step
  intro before t s tableId pk result after split unwritten
  obtain ⟨begun, read⟩ := stable.reads before _ after split
  have newest := read unwritten
  refine ⟨stable.timely.atSnapshot newest, fun s' again inside => ?_⟩
  obtain ⟨earlier, between, rfl⟩ := List.append_of_mem inside
  rw [List.append_assoc, List.cons_append] at split
  obtain ⟨started, older⟩ := stable.reads earlier _ _ split
  obtain ⟨tx, running, rfl⟩ := stable.begun t s (by rw [split]; simp at begun ⊢; tauto)
  obtain ⟨held, found, rfl⟩ := stable.begun t s' (by rw [split]; simp [started])
  rw [running] at found
  cases found
  exact (older fun wrote => unwritten (List.mem_append_left _ wrote)).unique newest

/-- A row is read as of the snapshot after another transaction has committed to it, in one particular run. -/
theorem snapshot_stability_under_commit :
    ∃ m, TxnRun (fun m a => Orderly m a ∧ ReadsOwn m a) blank m ∧
      AtSnapshot blank m 7 [97] ⟨1, 2⟩ (some [1]) := by
  obtain ⟨m, run, read⟩ : ∃ m, TxnRun (fun m a => Orderly m a ∧ ReadsOwn m a) blank m ∧
      (.read 2 ⟨1, 2⟩ 7 [97] (some [1]) ∈ m.history ∧ .wrote 2 7 [97] ∉ m.history) :=
    exists_run (fun history => _ ∈ history ∧ _ ∉ history)
      (begins 1 1 ++ writes 1 [97] 1 1 ++ begins 2 1 ++ begins 3 1 ++ writes 3 [97] 3 1 ++
        [.read 2 7 [97]]) (by decide +kernel)
  obtain ⟨before, after, split⟩ := List.append_of_mem read.1
  have unwritten : .wrote 2 7 [97] ∉ before := fun wrote =>
    read.2 (by rw [split]; exact List.mem_append_left _ wrote)
  exact ⟨m, run, (snapshot_stability blank_settled run before _ _ _ _ _ after split unwritten).1⟩

def Unstable (t : TxnHandle) (s : HlcTimestamp) (history : List TxnEvent) : Prop :=
  [.read t s 7 [97] none, .read t s 7 [97] (some [1])].Sublist history ∧ .wrote t 7 [97] ∉ history

instance (t : TxnHandle) (s : HlcTimestamp) : DecidablePred (Unstable t s) := fun _ =>
  inferInstanceAs (Decidable (_ ∧ _))

theorem Unstable.refutes {t : TxnHandle} {s : HlcTimestamp} (unstable : Unstable t s m.history) :
    ¬ SnapshotStable start m := by
  intro stable
  obtain ⟨earlier, between, later, split⟩ := before_of_sublist unstable.1
  have agree := (stable (earlier ++ .read t s 7 [97] none :: between) t s 7 [97] (some [1]) later
    (by simp [split]) fun wrote => unstable.2 (by rw [split]; simp at wrote ⊢; tauto)).2 s none (by simp)
  cases agree

def Misread (history : List TxnEvent) : Prop :=
  .read 1 ⟨1, 2⟩ 7 [97] (some [2]) ∈ history ∧ .wrote 1 7 [97] ∉ history ∧
    ∀ event ∈ history, event.commitsTo 7 [97] = false

instance : DecidablePred Misread := fun _ => inferInstanceAs (Decidable (_ ∧ _ ∧ ∀ event ∈ _, _))

theorem Misread.refutes (misread : Misread m.history) : ¬ SnapshotStable blank m := by
  intro stable
  obtain ⟨inside, unwritten, clean⟩ := misread
  obtain ⟨before, after, split⟩ := List.append_of_mem inside
  obtain ⟨ts, _, committed, _⟩ := (stable before 1 _ 7 [97] _ after split fun wrote =>
    unwritten (by rw [split]; exact List.mem_append_left _ wrote)).1
  rcases committed with initial | ⟨t, s, others, done, write, there, same, _⟩
  · simp [versionsOf, blank, TransactionManager.new, SortedMap.get, SortedMap.empty] at initial
  · exact List.any_eq_false.mp (clean _ done) write there (decide_eq_true same)

/-- The same three conditions are needed for stable reads. -/
theorem unstable_reads :
    (∃ m, TxnRun (fun m a => ClockFits m a ∧ ReadsOwn m a) blank m ∧ ¬ SnapshotStable blank m) ∧
    (∃ m, TxnRun Orderly blank m ∧ ¬ SnapshotStable blank m) ∧
    ∃ m, TxnRun (fun m a => BeginsOutsideCommit m a ∧ ReadsOwn m a) blank m ∧
      ¬ SnapshotStable blank m := by
  refine ⟨?_, ?_, ?_⟩
  · obtain ⟨m, run, unstable⟩ : ∃ m, TxnRun (fun m a => ClockFits m a ∧ ReadsOwn m a) blank m ∧
        Unstable 2 ⟨1, 2⟩ m.history :=
      exists_run (Unstable _ _) (begins 1 1 ++
        [.write 1 7 [97] [1], .commitCheck 1, .commitTick 1 1] ++ begins 2 1 ++
        [.read 2 7 [97], .commitWrite 1 true, .read 2 7 [97]]) (by decide +kernel)
    exact ⟨m, run, unstable.refutes⟩
  · obtain ⟨m, run, misread⟩ : ∃ m, TxnRun Orderly blank m ∧ Misread m.history :=
      exists_run Misread (begins 2 1 ++ writes 2 [97, 0] 2 1 ++ begins 1 1 ++ [.read 1 7 [97]])
        (by decide +kernel)
    exact ⟨m, run, misread.refutes⟩
  · obtain ⟨m, run, unstable⟩ : ∃ m,
        TxnRun (fun m a => BeginsOutsideCommit m a ∧ ReadsOwn m a) blank m ∧
        Unstable 2 ⟨2 ^ 48 - 1, 1⟩ m.history :=
      exists_run (Unstable _ _) (begins 1 (2 ^ 48 - 1) ++ begins 2 (2 ^ 48 - 1) ++ [.read 2 7 [97]] ++
        writes 1 [97] 1 (2 ^ 48) ++ [.read 2 7 [97]]) (by decide +kernel)
    exact ⟨m, run, unstable.refutes⟩

end Reads

end Neuralbase.Storage
