import Neuralbase.Storage.Mvcc.Steps

namespace Neuralbase.Storage

open Neuralbase.Library
open Neuralbase.Consensus (Bytes)
open TransactionManager

/-! Timestamps over a run.  As long as no transaction begins between another's
commit timestamp and its write, every version that appears is newer than every
snapshot drawn before. -/

def TxnAction.reading : TxnAction → Option Nat
  | .beginTick _ wall | .commitTick _ wall | .nextTimestamp wall => some wall
  | _ => none

def TxnAction.begins : TxnAction → Bool
  | .beginTick _ _ => true
  | _ => false

/-- The wall clock and the logical clock stay within the 48 bits of a stored timestamp. -/
def ClockFits (m : TransactionManager) (a : TxnAction) : Prop :=
  ∀ wall ∈ a.reading, wall < 2 ^ 48 ∧ (m.clock.logical = Fin.last _ → m.clock.wallMs + 1 < 2 ^ 48)

/-- No transaction begins while another has its commit timestamp and has not
written its batch. -/
def BeginsOutsideCommit (m : TransactionManager) (a : TxnAction) : Prop :=
  a.begins = true → ∀ holder ∈ m.serializer, m.stampedTxn holder = none

def Orderly (m : TransactionManager) (a : TxnAction) : Prop :=
  ClockFits m a ∧ BeginsOutsideCommit m a

instance : DecidableRel ClockFits := fun _ _ => inferInstanceAs (Decidable (∀ wall ∈ _, _ ∧ _))

instance : DecidableRel BeginsOutsideCommit := fun m _ =>
  have (holder : TxnHandle) : Decidable (m.stampedTxn holder = none) :=
    decidable_of_iff ((m.stampedTxn holder).isNone = true) Option.isNone_iff_eq_none
  inferInstanceAs (Decidable (_ → ∀ holder ∈ _, _))

instance : DecidableRel Orderly := fun _ _ => inferInstanceAs (Decidable (_ ∧ _))

structure Settled (start : TransactionManager) : Prop where
  fresh : start = .new start.data start.clock
  clockFits : start.clock.Fits

def Phase.Holds : Phase → Prop
  | .checked | .stamped _ | .written => True
  | _ => False

/-- A commit timestamp that is drawn is above all that has committed and all that has begun. -/
structure Stamp (m : TransactionManager) (commitTs : HlcTimestamp) : Prop where
  reached : commitTs ≤ m.clock
  commits : ∀ t snapshotTs ts writes, .committed t snapshotTs ts writes ∈ m.history → ts < commitTs
  snapshots : ∀ t ts, .began t ts ∈ m.history → ts < commitTs

structure TxnOk (m : TransactionManager) (t : TxnHandle) (tx : Transaction) : Prop where
  begun : .began t tx.snapshotTs ∈ m.history
  single : OnePerKey tx.writes
  wrote : ∀ write ∈ tx.writes, .wrote t write.tableId write.pk ∈ m.history
  holder : tx.phase.Holds → m.serializer = some t
  stamp : ∀ commitTs, tx.phase = .stamped commitTs → Stamp m commitTs

structure CommitOk (m : TransactionManager) (t : TxnHandle) (commitTs : HlcTimestamp)
    (writes : List RowWrite) : Prop where
  reached : commitTs ≤ m.clock
  stored : ∀ write ∈ writes,
    versionsOf m.data write.tableId write.pk commitTs = some write.value
  ended : ∃ tx, m.txns t = some tx ∧ (tx.phase = .written ∨ tx.phase = .committed)

def Committed (start m : TransactionManager) (tableId : UInt32) (pk : Bytes) (ts : HlcTimestamp)
    (value : Bytes) : Prop :=
  versionsOf start.data tableId pk ts = some value ∨
    ∃ t snapshotTs writes, .committed t snapshotTs ts writes ∈ m.history ∧
      ∃ write ∈ writes, write.IsTo tableId pk ∧ write.value = value

structure Timely (start m : TransactionManager) : Prop where
  clockFits : m.clock.Fits
  snapshots : ∀ t ts, .began t ts ∈ m.history → ts ≤ m.clock
  txns : ∀ t tx, m.txns t = some tx → TxnOk m t tx
  commits : ∀ t snapshotTs commitTs writes,
    .committed t snapshotTs commitTs writes ∈ m.history → CommitOk m t commitTs writes
  kept : ∀ tableId pk ts, versionsOf start.data tableId pk ts ≠ none →
    versionsOf m.data tableId pk ts ≠ none
  origin : ∀ tableId pk ts value, versionsOf m.data tableId pk ts = some value →
    Committed start m tableId pk ts value

theorem HlcTimestamp.Fits.of_le {ts bound : HlcTimestamp} (fits : bound.Fits) (below : ts ≤ bound) : ts.Fits := by
  unfold HlcTimestamp.Fits at fits ⊢
  rcases lt_or_eq_of_le below with less | rfl
  · rcases HlcTimestamp.lt_iff.mp less with wall | ⟨wall, _⟩ <;> omega
  · exact fits

namespace TransactionManager

variable {m : TransactionManager} {t other : TxnHandle} {tx : Transaction}

@[simp] theorem setTxn_self : (m.setTxn t tx).txns t = some tx := by simp [setTxn]

theorem setTxn_other (apart : other ≠ t) : (m.setTxn t tx).txns other = m.txns other := by
  simp [setTxn, apart]

@[simp] theorem mem_record {event done : TxnEvent} :
    event ∈ (m.record done).history ↔ event ∈ m.history ∨ event = done := by
  simp [record]

end TransactionManager

section Frames

variable {start m next : TransactionManager} {t : TxnHandle} {tx : Transaction}

theorem Stamp.frame {commitTs : HlcTimestamp} (stamp : Stamp m commitTs) (clock : m.clock ≤ next.clock)
    (commits : ∀ t snapshotTs commitTs writes, .committed t snapshotTs commitTs writes ∈ next.history →
      .committed t snapshotTs commitTs writes ∈ m.history)
    (quiet : ∀ t ts, .began t ts ∈ next.history → .began t ts ∈ m.history) : Stamp next commitTs where
  reached := stamp.reached.trans clock
  commits := fun _ _ _ _ inside => stamp.commits _ _ _ _ (commits _ _ _ _ inside)
  snapshots := fun t ts inside => stamp.snapshots t ts (quiet t ts inside)

theorem TxnOk.frame (ok : TxnOk m t tx) (history : ∀ event ∈ m.history, event ∈ next.history)
    (held : tx.phase.Holds → next.serializer = m.serializer)
    (stamp : ∀ commitTs, tx.phase = .stamped commitTs → Stamp m commitTs → Stamp next commitTs) : TxnOk next t tx where
  begun := history _ ok.begun
  single := ok.single
  wrote := fun write inside => history _ (ok.wrote write inside)
  holder := fun holds => (held holds).trans (ok.holder holds)
  stamp := fun commitTs phase => stamp commitTs phase (ok.stamp commitTs phase)

theorem Committed.frame {tableId : UInt32} {pk value : Bytes} {ts : HlcTimestamp}
    (committed : Committed start m tableId pk ts value) (history : ∀ event ∈ m.history, event ∈ next.history) :
    Committed start next tableId pk ts value := by
  refine committed.imp_right ?_
  rintro ⟨t, snapshotTs, writes, inside, rest⟩
  exact ⟨t, snapshotTs, writes, history _ inside, rest⟩

theorem Timely.frame (timely : Timely start m) (data : next.data = m.data)
    (clock : m.clock ≤ next.clock) (fits : next.clock.Fits) (history : ∀ event ∈ m.history, event ∈ next.history)
    (snapshots : ∀ t ts, .began t ts ∈ next.history → ts ≤ next.clock)
    (commits : ∀ t snapshotTs commitTs writes, .committed t snapshotTs commitTs writes ∈ next.history →
      .committed t snapshotTs commitTs writes ∈ m.history)
    (ended : ∀ t tx, m.txns t = some tx → tx.phase = .written ∨ tx.phase = .committed →
      ∃ tx, next.txns t = some tx ∧ (tx.phase = .written ∨ tx.phase = .committed))
    (txns : ∀ t tx, next.txns t = some tx → TxnOk next t tx) : Timely start next where
  clockFits := fits
  snapshots
  txns
  commits := by
    intro t snapshotTs commitTs writes inside
    have ok := timely.commits t snapshotTs commitTs writes (commits _ _ _ _ inside)
    obtain ⟨tx, running, phase⟩ := ok.ended
    exact ⟨ok.reached.trans clock, by rw [data]; exact ok.stored, ended t tx running phase⟩
  kept := by
    rw [data]
    exact timely.kept
  origin := by
    rw [data]
    exact fun tableId pk ts value found => (timely.origin tableId pk ts value found).frame history

def TxnEvent.Plain : TxnEvent → Prop
  | .began _ _ | .committed _ _ _ _ => False
  | _ => True

theorem Timely.move {moved : Transaction} (timely : Timely start m) (events : List TxnEvent)
    (txns : next.txns = Function.update m.txns t (some moved)) (data : next.data = m.data)
    (clock : next.clock = m.clock) (history : next.history = m.history ++ events)
    (plain : ∀ event ∈ events, event.Plain)
    (serializer : next.serializer = m.serializer ∨ m.serializer = none ∨ m.serializer = some t)
    (ok : TxnOk next t moved) (ended : ∀ tx, m.txns t = some tx → tx.phase = .written ∨ tx.phase = .committed →
      moved.phase = .written ∨ moved.phase = .committed) : Timely start next := by
  have grows : ∀ event ∈ m.history, event ∈ next.history := fun event inside => by
    rw [history]
    exact List.mem_append_left _ inside
  have began : ∀ t ts, .began t ts ∈ next.history → .began t ts ∈ m.history := fun t ts inside => by
    rw [history] at inside
    exact (List.mem_append.mp inside).resolve_right fun new => plain _ new
  have commits : ∀ t snapshotTs commitTs writes,
      .committed t snapshotTs commitTs writes ∈ next.history →
      .committed t snapshotTs commitTs writes ∈ m.history := fun t snapshotTs commitTs writes inside => by
    rw [history] at inside
    exact (List.mem_append.mp inside).resolve_right fun new => plain _ new
  refine timely.frame data clock.ge (clock ▸ timely.clockFits) grows
    (fun t ts inside => clock ▸ timely.snapshots t ts (began t ts inside)) commits ?_ ?_
  · intro other tx running phase
    rw [txns]
    by_cases same : other = t
    · subst same
      exact ⟨moved, by simp, ended tx running phase⟩
    · exact ⟨tx, by simp [same, running], phase⟩
  · intro other tx running
    rw [txns] at running
    by_cases same : other = t
    · subst same
      have same : moved = tx := by simpa using running
      exact same ▸ ok
    · have running : m.txns other = some tx := by simpa [same] using running
      have before := timely.txns other tx running
      refine before.frame grows (fun holds => ?_) fun commitTs _ stamp =>
        stamp.frame clock.ge commits began
      have owner := before.holder holds
      rcases serializer with kept | free | own
      · exact kept
      · rw [owner] at free
        cases free
      · rw [owner] at own
        exact absurd (Option.some.inj own) same

end Frames

section Step

variable {start m next : TransactionManager} {a : TxnAction}

theorem Timely.unstamped (timely : Timely start m)
    (outside : ∀ holder ∈ m.serializer, m.stampedTxn holder = none) {t : TxnHandle}
    {tx : Transaction} (running : m.txns t = some tx) (commitTs : HlcTimestamp) : tx.phase ≠ .stamped commitTs := by
  intro phase
  have owner := (timely.txns t tx running).holder (by rw [phase]; trivial)
  have none := outside t owner
  simp [stampedTxn, running, phase] at none

theorem Timely.beginTick {t : TxnHandle} {wall : Nat} (timely : Timely start m)
    (permits : Orderly m (.beginTick t wall)) (fresh : m.txns t = none) :
    Timely start (({ m with clock := advance m.clock wall }.setTxn t
      (.new (advance m.clock wall))).record (.began t (advance m.clock wall))) := by
  obtain ⟨reading, room⟩ := permits.1 wall rfl
  have later := lt_advance m.clock wall
  refine timely.frame rfl later.le (advance_fits timely.clockFits reading room) (by simp; tauto) ?_
    (by simp [setTxn]) ?_ ?_
  · intro other ts inside
    rcases mem_record.mp inside with old | new
    · exact (timely.snapshots other ts old).trans later.le
    · cases new
      exact le_rfl
  · intro other tx running phase
    have apart : other ≠ t := by
      rintro rfl
      rw [fresh] at running
      cases running
    exact ⟨tx, (setTxn_other apart).trans running, phase⟩
  · intro other tx running
    by_cases same : other = t
    · subst same
      have same : tx = .new (advance m.clock wall) := by
        simpa [setTxn, record, eq_comm] using running
      subst same
      exact ⟨by simp [Transaction.new], List.Pairwise.nil, by simp [Transaction.new],
        fun holds => holds.elim, fun commitTs phase => by cases phase⟩
    · have running : m.txns other = some tx := by
        simpa [setTxn, record, same] using running
      exact (timely.txns other tx running).frame (by simp; tauto) (fun _ => rfl)
        fun commitTs phase _ => absurd phase (timely.unstamped (permits.2 rfl) running commitTs)

theorem Timely.commitTick {t : TxnHandle} {tx : Transaction} {wall : Nat} (timely : Timely start m)
    (permits : Orderly m (.commitTick t wall)) (running : m.txns t = some tx)
    (checked : tx.phase = .checked) :
    Timely start ({ m with clock := advance m.clock wall }.setTxn t
      { tx with phase := .stamped (advance m.clock wall) }) := by
  obtain ⟨reading, room⟩ := permits.1 wall rfl
  have later := lt_advance m.clock wall
  have ok := timely.txns t tx running
  have owner := ok.holder (by rw [checked]; trivial)
  refine timely.frame rfl later.le (advance_fits timely.clockFits reading room) (fun _ inside => inside)
    (fun other ts inside => (timely.snapshots other ts inside).trans later.le)
    (fun _ _ _ _ inside => inside) ?_ ?_
  · intro other held there phase
    have apart : other ≠ t := by
      rintro rfl
      rw [running] at there
      cases there
      rw [checked] at phase
      rcases phase with phase | phase <;> cases phase
    exact ⟨held, (setTxn_other apart).trans there, phase⟩
  · intro other held there
    by_cases same : other = t
    · subst same
      rw [setTxn_self] at there
      cases there
      refine ⟨ok.begun, ok.single, ok.wrote, fun _ => owner, fun commitTs phase => ?_⟩
      cases phase
      exact ⟨le_rfl, fun _ _ ts _ inside => (timely.commits _ _ ts _ inside).reached.trans_lt later,
        fun other ts inside => (timely.snapshots other ts inside).trans_lt later⟩
    · rw [setTxn_other same] at there
      have before := timely.txns other held there
      refine before.frame (fun _ inside => inside) (fun _ => rfl) fun commitTs _ stamp =>
        stamp.frame later.le (fun _ _ _ _ inside => inside) fun _ _ inside => inside

theorem Timely.commitWrite {t : TxnHandle} {tx : Transaction} {commitTs : HlcTimestamp}
    (timely : Timely start m) (running : m.txns t = some tx) (stamped : tx.phase = .stamped commitTs) :
    Timely start (({ m with data := putRows m.data commitTs tx.writes }.setTxn t
      { tx with phase := .written }).record (.committed t tx.snapshotTs commitTs tx.writes)) := by
  have ok := timely.txns t tx running
  have stamp := ok.stamp commitTs stamped
  have owner := ok.holder (by rw [stamped]; trivial)
  have fits := timely.clockFits.of_le stamp.reached
  have grows : ∀ event ∈ m.history, event ∈ (({ m with data := putRows m.data commitTs tx.writes
      }.setTxn t { tx with phase := .written }).record
        (.committed t tx.snapshotTs commitTs tx.writes)).history :=
    fun event inside => mem_record.mpr (.inl inside)
  refine ⟨timely.clockFits, fun other ts inside => ?_,
    fun other held there => ?_, fun other snapshotTs ts writes inside => ?_,
    fun tableId pk ts found => versionsOf_putRows_kept fits (timely.kept tableId pk ts found),
    fun tableId pk ts value found => ?_⟩
  · rcases mem_record.mp inside with before | new
    · exact timely.snapshots other ts before
    · cases new
  · by_cases same : other = t
    · subst same
      have same : held = { tx with phase := .written } := by
        simpa [setTxn, record, eq_comm] using there
      subst same
      exact ⟨grows _ ok.begun, ok.single, fun write inside => grows _ (ok.wrote write inside),
        fun _ => owner, fun ts phase => by cases phase⟩
    · have there : m.txns other = some held := by
        simpa [setTxn, record, same] using there
      have before := timely.txns other held there
      refine before.frame grows (fun _ => rfl) fun ts phase _ => ?_
      have rival := before.holder (by rw [phase]; trivial)
      rw [owner] at rival
      exact absurd (Option.some.inj rival).symm same
  · rcases mem_record.mp inside with before | new
    · have commit := timely.commits other snapshotTs ts writes before
      obtain ⟨held, there, phase⟩ := commit.ended
      have apart : other ≠ t := by
        rintro rfl
        rw [running] at there
        cases there
        rw [stamped] at phase
        rcases phase with phase | phase <;> cases phase
      have below := stamp.commits _ _ _ _ before
      exact ⟨commit.reached,
        fun write inside => (versionsOf_putRows_ne fits below.ne).trans (commit.stored write inside),
        held, (setTxn_other apart).trans there, phase⟩
    · cases new
      exact ⟨stamp.reached, fun write inside => versionsOf_putRows_mem fits ok.single inside,
        _, setTxn_self, .inl rfl⟩
  · rcases versionsOf_putRows_cases fits found with before | ⟨rfl, write, inside, rest⟩
    · exact (timely.origin tableId pk ts value before).frame grows
    · exact .inr ⟨t, tx.snapshotTs, tx.writes, mem_record.mpr (.inr rfl), write,
        inside, rest⟩

/-- The steps of `Timely.move` that leave the transaction with other fields than before only
in its phase. -/
theorem TxnOk.rephase {t : TxnHandle} {tx : Transaction} (ok : TxnOk m t tx) {phase : Phase}
    (history : ∀ event ∈ m.history, event ∈ next.history)
    (holder : phase.Holds → next.serializer = some t) (unstamped : ∀ commitTs, phase ≠ .stamped commitTs) :
    TxnOk next t { tx with phase } where
  begun := history _ ok.begun
  single := ok.single
  wrote := fun write inside => history _ (ok.wrote write inside)
  holder
  stamp := fun commitTs same => absurd same (unstamped commitTs)

theorem Timely.initial (settled : Settled start) : Timely start start := by
  have history : start.history = [] := by rw [settled.fresh]; rfl
  have txns : ∀ t, start.txns t = none := fun t => by rw [settled.fresh]; rfl
  refine ⟨settled.clockFits, ?_, ?_, ?_, fun _ _ _ found => found,
    fun _ _ _ _ found => .inl found⟩
  · intro t ts inside
    rw [history] at inside
    cases inside
  · intro t tx running
    rw [txns] at running
    cases running
  · intro t snapshotTs commitTs writes inside
    rw [history] at inside
    cases inside

theorem Timely.step (permits : Orderly m a) (timely : Timely start m) (step : TxnStep m a next) :
    Timely start next := by
  cases step with
  | beginTick t wall fresh => exact timely.beginTick permits fresh
  | beginRegister t tx running phase =>
    refine timely.move [] rfl rfl rfl (List.append_nil _).symm (by simp) (.inl rfl)
      ((timely.txns t tx running).rephase (fun _ inside => inside) (fun holds => holds.elim)
        (by simp)) (by simp_all)
  | write t tx tableId pk value running phase =>
    have ok := timely.txns t tx running
    refine timely.move [.wrote t tableId pk] rfl rfl rfl rfl (by simp [TxnEvent.Plain]) (.inl rfl)
      ⟨mem_record.mpr (.inl ok.begun), ok.single.write, fun write inside => ?_, fun holds => ?_,
        fun commitTs stamped => ?_⟩ (by simp_all)
    · rcases List.mem_append.mp inside with kept | new
      · exact mem_record.mpr (.inl (ok.wrote write (List.mem_filter.mp kept).1))
      · rw [List.mem_singleton.mp new]
        exact mem_record.mpr (.inr rfl)
    · exact ok.holder holds
    · rw [Transaction.write, phase] at stamped
      cases stamped
  | read t tx tableId pk running phase =>
    exact timely.move [_] (Function.update_eq_self_iff.mpr running.symm).symm rfl rfl rfl
      (by simp [TxnEvent.Plain]) (.inl rfl)
      ((timely.txns t tx running).frame (by simp; tauto) (fun _ => rfl)
        fun commitTs stamped => by simp_all) (by simp_all)
  | conflict t tx write free running phase inside newer =>
    exact timely.move [_] rfl rfl rfl rfl (by simp [TxnEvent.Plain]) (.inl rfl)
      ((timely.txns t tx running).rephase
        (fun _ inside => mem_record.mpr (.inl inside)) (fun holds => holds.elim)
        (by simp)) (by simp_all)
  | check t tx free running phase clean =>
    exact timely.move [] rfl rfl rfl (List.append_nil _).symm (by simp) (.inr (.inl free))
      ((timely.txns t tx running).rephase (fun _ inside => inside) (fun _ => rfl) (by simp))
      (by simp_all)
  | commitTick t tx wall running phase => exact timely.commitTick permits running phase
  | commitWrite t tx commitTs running phase => exact timely.commitWrite running phase
  | commitFail t tx commitTs running phase =>
    have ok := timely.txns t tx running
    exact timely.move [] rfl rfl rfl (List.append_nil _).symm (by simp)
      (.inr (.inr (ok.holder (by rw [phase]; trivial))))
      (ok.rephase (fun _ inside => inside) (fun holds => holds.elim) (by simp)) (by simp_all)
  | commitFinish t tx running phase =>
    have ok := timely.txns t tx running
    exact timely.move [] rfl rfl rfl (List.append_nil _).symm (by simp)
      (.inr (.inr (ok.holder (by rw [phase]; trivial))))
      (ok.rephase (fun _ inside => inside) (fun holds => holds.elim) (by simp)) (by simp)
  | rollback t tx running phase =>
    have ok := timely.txns t tx running
    exact timely.move [] rfl rfl rfl (List.append_nil _).symm (by simp) (.inl rfl)
      ⟨ok.begun, List.Pairwise.nil, by simp, fun holds => holds.elim, by simp⟩ (by simp_all)
  | nextTimestamp wall =>
    obtain ⟨reading, room⟩ := permits.1 wall rfl
    have later := (lt_advance m.clock wall).le
    refine timely.frame rfl later (advance_fits timely.clockFits reading room)
      (fun _ inside => inside) (fun t ts inside => (timely.snapshots t ts inside).trans later)
      (fun _ _ _ _ inside => inside) (fun t tx running phase => ⟨tx, running, phase⟩) ?_
    intro t tx running
    exact (timely.txns t tx running).frame (fun _ inside => inside) (fun _ => rfl)
      fun commitTs _ stamp => stamp.frame later (fun _ _ _ _ inside => inside) fun _ _ inside => inside

end Step

end Neuralbase.Storage
