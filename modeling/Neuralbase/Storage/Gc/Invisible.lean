import Neuralbase.Storage.Gc.Victims
import Neuralbase.Storage.Mvcc.Isolation

namespace Neuralbase.Storage

open Neuralbase.Library
open Neuralbase.Consensus (Bytes)
open TransactionManager

/-! The collector is invisible: a run with it and the run of the transactions alone
have the same history, as long as a horizon is read while no snapshot is drawn and not
registered, and a table is scanned with no transaction open if none was registered then. -/

def Transaction.isOpen (tx : Transaction) : Bool :=
  decide (tx.phase = .drawn) || decide (tx.phase = .active)

def TransactionManager.openSnapshots (m : TransactionManager) : List HlcTimestamp :=
  m.history.filterMap fun
    | .began t snapshotTs => if (m.txns t).any Transaction.isOpen then some snapshotTs else none
    | _ => none

/-- The transactions between the two steps of `begin`. -/
def TransactionManager.unregistered (m : TransactionManager) : List TxnHandle :=
  m.history.filterMap fun
    | .began t _ => if (m.txns t).any fun tx => decide (tx.phase = .drawn) then some t else none
    | _ => none

/-- The horizon is read while every drawn snapshot is registered; where it is read with no snapshot
at all, no transaction is open at the scan. -/
def CyclesOrderly (s : CollectedStore) : StoreAction → Prop
  | .gcHorizon => s.manager.unregistered = []
  | .gcScan _ => s.safeHorizon = some .max → s.manager.openSnapshots = []
  | .txn _ | .gcDelete => True

def BeginsFit (m : TransactionManager) : TxnAction → Prop
  | .beginTick _ wall => wall < 2 ^ 48 ∧ m.clock.Fits ∧
      (m.clock.logical = Fin.last _ → m.clock.wallMs + 1 < 2 ^ 48)
  | _ => True

def SeeksFind (m : TransactionManager) (a : TxnAction) : Prop :=
  BeginsFit m a ∧ ReadsOwn m a ∧ ChecksOwn m a

instance : ∀ s action, Decidable (CyclesOrderly s action)
  | s, .gcHorizon => inferInstanceAs (Decidable (s.manager.unregistered = []))
  | s, .gcScan _ => inferInstanceAs (Decidable (s.safeHorizon = some .max → s.manager.openSnapshots = []))
  | _, .txn _ | _, .gcDelete => .isTrue trivial

instance : DecidableRel BeginsFit := fun _ a =>
  match a with
  | .beginTick _ _ => inferInstanceAs (Decidable (_ ∧ _ ∧ (_ → _)))
  | .beginRegister _ | .write _ _ _ _ | .read _ _ _ | .commitCheck _ | .commitTick _ _
  | .commitWrite _ _ | .commitFinish _ | .rollback _ | .nextTimestamp _ => .isTrue trivial

instance : DecidableRel SeeksFind := fun _ _ => inferInstanceAs (Decidable (_ ∧ _ ∧ _))

section Steps

variable {m next : TransactionManager} {a : TxnAction} {t : TxnHandle}

theorem TransactionManager.setTxn_origin {other : TxnHandle} {old moved later : Transaction}
    (running : (m.setTxn other moved).txns t = some later) (found : m.txns other = some old)
    (same : moved.snapshotTs = old.snapshotTs) (opened : moved.isOpen = true → old.isOpen = true) :
    ∃ tx, m.txns t = some tx ∧ tx.snapshotTs = later.snapshotTs ∧ (later.isOpen = true → tx.isOpen = true) := by
  by_cases here : t = other
  · subst here
    rw [setTxn_self] at running
    cases running
    exact ⟨old, found, same.symm, opened⟩
  · rw [setTxn_other here] at running
    exact ⟨later, running, rfl, id⟩

theorem TxnStep.txn_origin {later : Transaction} (step : TxnStep m a next) (running : next.txns t = some later) :
    (∃ tx, m.txns t = some tx ∧ tx.snapshotTs = later.snapshotTs ∧ (later.isOpen = true → tx.isOpen = true)) ∨
    ∃ wall, a = .beginTick t wall ∧ later.snapshotTs = advance m.clock wall ∧
      .began t later.snapshotTs ∈ next.history := by
  cases step with
  | beginTick other wall fresh =>
    by_cases here : t = other
    · subst here
      have same : later = .new (advance m.clock wall) := by
        simpa [setTxn, record, eq_comm] using running
      subst same
      exact .inr ⟨wall, rfl, rfl, mem_record.mpr (.inr rfl)⟩
    · exact .inl ⟨later, (setTxn_other here).symm.trans running, rfl, id⟩
  | read | nextTimestamp => exact .inl ⟨later, running, rfl, id⟩
  | beginRegister other old found phase | write other old tableId pk value found phase
  | conflict other old write free found phase | check other old free found phase
  | rollback other old found phase =>
    exact .inl (setTxn_origin running found rfl (by simp [Transaction.isOpen, phase]))
  | commitTick other old wall found phase | commitWrite other old commitTs found phase
  | commitFail other old commitTs found phase | commitFinish other old found phase =>
    exact .inl (setTxn_origin running found rfl (by simp [Transaction.isOpen]))

theorem TxnStep.clock_le (step : TxnStep m a next) : m.clock ≤ next.clock := by
  cases step with
  | beginTick t wall | commitTick t tx wall | nextTimestamp wall => exact (lt_advance _ _).le
  | beginRegister | write | read | conflict | check | commitWrite | commitFail | commitFinish
  | rollback => exact le_rfl

theorem TxnStep.history_mem {event : TxnEvent} (step : TxnStep m a next) (inside : event ∈ m.history) :
    event ∈ next.history := by
  rcases step.emits with ⟨same, _⟩ | ⟨new, grown, _⟩
  · rwa [same]
  · rw [grown]
    exact List.mem_append_left _ inside

/-- A stored timestamp is not above the one it was made from. -/
theorem le_of_encodeVersionedKey {tableId other : UInt32} {pk row : Bytes} {ts stamp : HlcTimestamp} (fits : stamp.Fits)
    (same : encodeVersionedKey tableId pk ts = encodeVersionedKey other row stamp) : stamp ≤ ts := by
  have bytes : ts.toBytes = stamp.toBytes := by
    unfold encodeVersionedKey at same
    exact (List.append_inj' same (by simp)).2
  rw [← HlcTimestamp.fromBytes_toBytes fits, ← bytes, HlcTimestamp.fromBytes, HlcTimestamp.toBytes,
    fromBeBytes_toBeBytes _ _ ts.toU64_lt_bound, ← not_lt, HlcTimestamp.lt_iff, Fin.lt_def]
  have counter := ts.logical.isLt
  simp only [HlcTimestamp.fromU64, HlcTimestamp.toU64, Fin.val_ofNat]
  omega

theorem versionsOf_putRows_le {data : ColumnFamily} {ts stamp : HlcTimestamp} {writes : List RowWrite} {tableId : UInt32}
    {pk : Bytes} (found : versionsOf (putRows data ts writes) tableId pk stamp ≠ none) :
    versionsOf data tableId pk stamp ≠ none ∨ stamp ≤ ts := by
  induction writes generalizing data with
  | nil => exact .inl found
  | cons write rest induction =>
    rw [putRows_cons] at found
    rcases induction found with before | below
    · obtain ⟨fits, value, stored⟩ := versionsOf_ne_none.mp before
      by_cases here : encodeVersionedKey tableId pk stamp = encodeVersionedKey write.tableId write.pk ts
      · exact .inr (le_of_encodeVersionedKey fits here.symm)
      · rw [SortedMap.get_put_ne here] at stored
        exact .inl (versionsOf_ne_none.mpr ⟨fits, value, stored⟩)
    · exact .inr below

/-- How the registry stands to the transactions, and the clock to all that was drawn or stored. -/
structure Enrolled (m : TransactionManager) : Prop where
  drawn : ∀ t tx, m.txns t = some tx → tx.snapshotTs ≤ m.clock ∧ tx.id = tx.snapshotTs.toU64
  unique : ∀ t t' tx tx', m.txns t = some tx → m.txns t' = some tx' → tx.snapshotTs = tx'.snapshotTs → t = t'
  active : ∀ t tx, m.txns t = some tx → tx.phase = .active → tx.id ∈ m.activeSnapshots
  known : ∀ id ∈ m.activeSnapshots, ∃ t tx, m.txns t = some tx ∧ tx.id = id
  stamped : ∀ t tx commitTs, m.txns t = some tx → tx.phase = .stamped commitTs → commitTs ≤ m.clock
  stored : ∀ tableId pk ts, versionsOf m.data tableId pk ts ≠ none → ts ≤ m.clock

/-- What a step may do to the set of registered snapshots. -/
inductive Enrols (m next : TransactionManager) (old moved : Transaction) : Prop
  | keeps (same : next.activeSnapshots = m.activeSnapshots) (was : moved.phase = .active → old.phase = .active)
  | adds (more : next.activeSnapshots = insert old.id m.activeSnapshots)
  | drops (less : next.activeSnapshots = m.activeSnapshots.erase old.id) (ended : moved.phase ≠ .active)

/-- A step that moves one transaction. -/
theorem Enrolled.move {old moved : Transaction} (enrolled : Enrolled m)
    (fits : ∀ t tx, m.txns t = some tx → tx.snapshotTs.Fits) (found : m.txns t = some old)
    (txns : next.txns = Function.update m.txns t (some moved)) (id : moved.id = old.id)
    (snapshot : moved.snapshotTs = old.snapshotTs) (clock : m.clock ≤ next.clock) (enrols : Enrols m next old moved)
    (stamped : ∀ commitTs, moved.phase = .stamped commitTs → commitTs ≤ next.clock)
    (stored : ∀ tableId pk ts, versionsOf next.data tableId pk ts ≠ none → ts ≤ next.clock) : Enrolled next := by
  have origin {u : TxnHandle} {tx : Transaction} (running : next.txns u = some tx) :
      ∃ before, m.txns u = some before ∧ tx.id = before.id ∧ tx.snapshotTs = before.snapshotTs ∧
        (u = t ∧ tx = moved ∨ u ≠ t ∧ tx = before) := by
    rw [txns] at running
    rcases eq_or_ne u t with rfl | other
    · rw [Function.update_self] at running
      cases running
      exact ⟨old, found, id, snapshot, .inl ⟨rfl, rfl⟩⟩
    · rw [Function.update_of_ne other] at running
      exact ⟨tx, running, rfl, rfl, .inr ⟨other, rfl⟩⟩
  refine ⟨fun u tx running => ?_, fun u u' tx tx' running running' same => ?_, fun u tx running phase => ?_,
    fun known inside => ?_, fun u tx commitTs running phase => ?_, stored⟩
  · obtain ⟨before, was, sameId, sameTs, _⟩ := origin running
    obtain ⟨below, isId⟩ := enrolled.drawn u before was
    rw [sameTs, sameId]
    exact ⟨below.trans clock, isId⟩
  · obtain ⟨before, was, _, sameTs, _⟩ := origin running
    obtain ⟨before', was', _, sameTs', _⟩ := origin running'
    exact enrolled.unique u u' before before' was was' (sameTs.symm.trans (same.trans sameTs'))
  · obtain ⟨before, was, sameId, sameTs, which⟩ := origin running
    have earlier (still : before.phase = .active) : tx.id ∈ m.activeSnapshots := sameId ▸ enrolled.active u before was still
    cases enrols with
    | keeps same wasActive =>
      rw [same]
      rcases which with ⟨rfl, rfl⟩ | ⟨_, rfl⟩
      · cases found.symm.trans was
        exact earlier (wasActive phase)
      · exact earlier phase
    | adds more =>
      rw [more]
      rcases which with ⟨rfl, rfl⟩ | ⟨_, rfl⟩
      · rw [id]
        exact Finset.mem_insert_self _ _
      · exact Finset.mem_insert_of_mem (earlier phase)
    | drops less ended =>
      rw [less]
      rcases which with ⟨rfl, rfl⟩ | ⟨other, rfl⟩
      · exact absurd phase ended
      · -- another transaction has another number
        refine Finset.mem_erase.mpr ⟨fun equal => other ?_, earlier phase⟩
        rw [(enrolled.drawn u tx was).2, (enrolled.drawn t old found).2] at equal
        refine enrolled.unique u t tx old was found ?_
        rw [← HlcTimestamp.fromU64_toU64 (fits u tx was), equal, HlcTimestamp.fromU64_toU64 (fits t old found)]
  · have carried {u : TxnHandle} {tx : Transaction} (was : m.txns u = some tx) :
        ∃ later, next.txns u = some later ∧ later.id = tx.id := by
      rw [txns]
      rcases eq_or_ne u t with rfl | other
      · cases found.symm.trans was
        exact ⟨moved, Function.update_self .., id⟩
      · exact ⟨tx, by rw [Function.update_of_ne other, was], rfl⟩
    have before : known ∈ insert old.id m.activeSnapshots := by
      cases enrols with
      | keeps same _ => exact Finset.mem_insert_of_mem (same ▸ inside)
      | adds more => exact more ▸ inside
      | drops less _ => exact Finset.mem_insert_of_mem (Finset.mem_of_mem_erase (less ▸ inside))
    rcases Finset.mem_insert.mp before with rfl | inside
    · obtain ⟨later, running, sameId⟩ := carried found
      exact ⟨t, later, running, sameId⟩
    · obtain ⟨u, tx, was, isId⟩ := enrolled.known known inside
      obtain ⟨later, running, sameId⟩ := carried was
      exact ⟨u, later, running, sameId.trans isId⟩
  · obtain ⟨before, was, _, _, which⟩ := origin running
    rcases which with ⟨_, rfl⟩ | ⟨_, rfl⟩
    · exact stamped commitTs phase
    · exact (enrolled.stamped u tx commitTs was phase).trans clock

theorem Enrolled.step (enrolled : Enrolled m) (fits : ∀ t tx, m.txns t = some tx → tx.snapshotTs.Fits)
    (step : TxnStep m a next) : Enrolled next := by
  cases step with
  | beginTick t wall fresh =>
    have above := lt_advance m.clock wall
    have origin {u : TxnHandle} {tx : Transaction}
        (running : Function.update m.txns t (some (.new (advance m.clock wall))) u = some tx) :
        u = t ∧ tx = .new (advance m.clock wall) ∨ u ≠ t ∧ m.txns u = some tx := by
      rcases eq_or_ne u t with rfl | other
      · rw [Function.update_self] at running
        exact .inl ⟨rfl, (Option.some.inj running).symm⟩
      · rw [Function.update_of_ne other] at running
        exact .inr ⟨other, running⟩
    refine ⟨fun u tx running => ?_, fun u u' tx tx' running running' same => ?_, fun u tx running phase => ?_,
      fun known inside => ?_, fun u tx commitTs running phase => ?_, fun tableId pk ts found => ?_⟩
    · rcases origin running with ⟨_, rfl⟩ | ⟨_, was⟩
      · exact ⟨le_rfl, rfl⟩
      · exact ⟨(enrolled.drawn u tx was).1.trans above.le, (enrolled.drawn u tx was).2⟩
    · rcases origin running with ⟨rfl, rfl⟩ | ⟨_, was⟩ <;> rcases origin running' with ⟨rfl, rfl⟩ | ⟨_, was'⟩
      · rfl
      · exact absurd (same.trans_le (enrolled.drawn u' tx' was').1) (not_le.mpr above)
      · exact absurd (same.symm.trans_le (enrolled.drawn u tx was).1) (not_le.mpr above)
      · exact enrolled.unique u u' tx tx' was was' same
    · rcases origin running with ⟨_, rfl⟩ | ⟨_, was⟩
      · cases phase
      · exact enrolled.active u tx was phase
    · obtain ⟨u, tx, was, isId⟩ := enrolled.known known inside
      have other : u ≠ t := by
        rintro rfl
        cases fresh.symm.trans was
      exact ⟨u, tx, (setTxn_other other).trans was, isId⟩
    · rcases origin running with ⟨_, rfl⟩ | ⟨_, was⟩
      · cases phase
      · exact (enrolled.stamped u tx commitTs was phase).trans above.le
    · exact (enrolled.stored tableId pk ts found).trans above.le
  | beginRegister t tx found phase =>
    exact enrolled.move fits found rfl rfl rfl le_rfl (.adds rfl) nofun enrolled.stored
  | write t tx tableId pk value found phase =>
    exact enrolled.move fits found rfl rfl rfl le_rfl (.keeps rfl fun _ => phase)
      (fun commitTs stamped => by cases phase.symm.trans stamped) enrolled.stored
  | read => exact ⟨enrolled.drawn, enrolled.unique, enrolled.active, enrolled.known, enrolled.stamped, enrolled.stored⟩
  | conflict t tx write free found phase =>
    exact enrolled.move fits found rfl rfl rfl le_rfl (.drops rfl nofun) nofun enrolled.stored
  | check t tx free found phase =>
    exact enrolled.move fits found rfl rfl rfl le_rfl (.keeps rfl nofun) nofun enrolled.stored
  | commitTick t tx wall found phase =>
    refine enrolled.move fits found rfl rfl rfl (lt_advance _ _).le (.keeps rfl nofun) (fun commitTs stamped => ?_)
      fun tableId pk ts stored => (enrolled.stored tableId pk ts stored).trans (lt_advance _ _).le
    cases stamped
    exact le_rfl
  | commitWrite t tx commitTs found phase =>
    refine enrolled.move fits found rfl rfl rfl le_rfl (.keeps rfl nofun) nofun fun tableId pk ts stored => ?_
    rcases versionsOf_putRows_le stored with before | below
    · exact enrolled.stored tableId pk ts before
    · exact below.trans (enrolled.stamped t tx commitTs found phase)
  | commitFail t tx commitTs found phase =>
    exact enrolled.move fits found rfl rfl rfl le_rfl (.keeps rfl nofun) nofun enrolled.stored
  | commitFinish t tx found phase =>
    exact enrolled.move fits found rfl rfl rfl le_rfl (.drops rfl nofun) nofun enrolled.stored
  | rollback t tx found phase =>
    exact enrolled.move fits found rfl rfl rfl le_rfl (.drops rfl nofun) nofun enrolled.stored
  | nextTimestamp wall =>
    have above := (lt_advance m.clock wall).le
    exact ⟨fun t tx found => ⟨(enrolled.drawn t tx found).1.trans above, (enrolled.drawn t tx found).2⟩,
      enrolled.unique, enrolled.active, enrolled.known,
      fun t tx commitTs found phase => (enrolled.stamped t tx commitTs found phase).trans above,
      fun tableId pk ts stored => (enrolled.stored tableId pk ts stored).trans above⟩

/-- The horizon is above everything, or at or below the clock and every open snapshot. -/
def Behind (m : TransactionManager) (safeHorizon : HlcTimestamp) : Prop :=
  safeHorizon = .max ∨ safeHorizon ≤ m.clock ∧
    ∀ t tx, m.txns t = some tx → tx.isOpen = true → safeHorizon ≤ tx.snapshotTs

theorem Behind.step {safeHorizon : HlcTimestamp} (behind : Behind m safeHorizon) (step : TxnStep m a next) :
    Behind next safeHorizon := by
  rcases behind with rfl | ⟨reached, below⟩
  · exact .inl rfl
  · refine .inr ⟨reached.trans step.clock_le, fun t tx running opened => ?_⟩
    rcases step.txn_origin running with ⟨old, found, same, wasOpen⟩ | ⟨wall, _, drawn, _⟩
    · rw [← same]
      exact below t old found (wasOpen opened)
    · rw [drawn]
      exact reached.trans (lt_advance _ _).le

/-- The horizon of a registry that holds every open snapshot is their minimum. -/
theorem Enrolled.behind (enrolled : Enrolled m) (fits : ∀ t tx, m.txns t = some tx → tx.snapshotTs.Fits)
    (settled : ∀ t tx, m.txns t = some tx → tx.phase ≠ .drawn) : Behind m m.safeHorizon := by
  cases least : m.activeSnapshots.min with
  | top => exact .inl (by rw [safeHorizon, least])
  | coe minId =>
    obtain ⟨u, oldest, found, isId⟩ := enrolled.known minId (Finset.mem_of_min least)
    obtain ⟨below, isTs⟩ := enrolled.drawn u oldest found
    have horizon : m.safeHorizon = oldest.snapshotTs := by
      rw [safeHorizon, least, ← isId, isTs]
      exact HlcTimestamp.fromU64_toU64 (fits u oldest found)
    refine .inr ⟨by rw [horizon]; exact below, fun t tx running opened => ?_⟩
    have phase : tx.phase = .active := by
      simp only [Transaction.isOpen, Bool.or_eq_true, decide_eq_true_eq] at opened
      exact opened.resolve_left (settled t tx running)
    have member := enrolled.active t tx running phase
    have atLeast : minId ≤ tx.id := by
      have bound := Finset.min_le member
      rw [least] at bound
      exact WithTop.coe_le_coe.mp bound
    rw [horizon, ← HlcTimestamp.toU64_le (fits u oldest found) (fits t tx running), ← isTs,
      ← (enrolled.drawn t tx running).2, isId]
    exact atLeast

def SameEffect (left right left' right' : ColumnFamily) : Prop :=
  left' = left ∧ right' = right ∨
    ∃ ts writes, left' = putRows left ts writes ∧ right' = putRows right ts writes

theorem get_putRows (writes : List RowWrite) (ts : HlcTimestamp) (key : Bytes) :
    (∀ data : ColumnFamily, (putRows data ts writes).get key = data.get key) ∨
      ∃ value, ∀ data : ColumnFamily, (putRows data ts writes).get key = some value := by
  induction writes with
  | nil => exact .inl fun _ => rfl
  | cons write rest induction =>
    rcases induction with same | ⟨value, written⟩
    · by_cases here : key = encodeVersionedKey write.tableId write.pk ts
      · exact .inr ⟨write.value, fun data => by rw [putRows_cons, same, here, SortedMap.get_put_self]⟩
      · exact .inl fun data => by rw [putRows_cons, same, SortedMap.get_put_ne here]
    · exact .inr ⟨value, fun data => by rw [putRows_cons, written]⟩

theorem SameEffect.get {left right left' right' : ColumnFamily}
    (effect : SameEffect left right left' right') (key : Bytes) :
    (left'.get key = left.get key ∧ right'.get key = right.get key) ∨
      ∃ value, left'.get key = some value ∧ right'.get key = some value := by
  rcases effect with ⟨rfl, rfl⟩ | ⟨ts, writes, rfl, rfl⟩
  · exact .inl ⟨rfl, rfl⟩
  · rcases get_putRows writes ts key with same | ⟨value, written⟩
    · exact .inl ⟨same left, same right⟩
    · exact .inr ⟨value, written left, written right⟩

theorem SameEffect.versionsOf {left right left' right' : ColumnFamily}
    (effect : SameEffect left right left' right') (tableId : UInt32) (pk : Bytes) (ts : HlcTimestamp) :
    (versionsOf left' tableId pk ts = versionsOf left tableId pk ts ∧
      versionsOf right' tableId pk ts = versionsOf right tableId pk ts) ∨
      ∃ value, versionsOf left' tableId pk ts = some value ∧ versionsOf right' tableId pk ts = some value := by
  unfold Storage.versionsOf
  split
  · exact effect.get _
  · exact .inl ⟨rfl, rfl⟩

def TransactionManager.withData (m : TransactionManager) (data : ColumnFamily) : TransactionManager :=
  { m with data }

theorem TxnStep.over (step : TxnStep m a next) (data : ColumnFamily)
    (reads : ∀ t tx tableId pk, a = .read t tableId pk → m.txns t = some tx → tx.phase = .active →
      readLatest data tableId pk tx.snapshotTs = readLatest m.data tableId pk tx.snapshotTs)
    (checks : ∀ t tx, a = .commitCheck t → m.txns t = some tx → ∀ write ∈ tx.writes,
      latestVisibleTsAny data write.tableId write.pk = latestVisibleTsAny m.data write.tableId write.pk) :
    ∃ after, (m.withData data).exec a = some (next.withData after) ∧ SameEffect m.data data next.data after := by
  have agree : ∀ t tx, a = .commitCheck t → m.txns t = some tx → ∀ write ∈ tx.writes,
      (m.withData data).hasConflictingVersion write tx.snapshotTs =
        m.hasConflictingVersion write tx.snapshotTs := by
    intro t tx same running write inside
    simp [hasConflictingVersion, withData, checks t tx same running write inside]
  have held {t : TxnHandle} {tx : Transaction} {phase : Phase} (running : m.txns t = some tx)
      (here : tx.phase = phase) : (m.withData data).inPhase t phase = some tx :=
    inPhase_eq_some.mpr ⟨running, here⟩
  cases step with
  | beginTick t wall fresh =>
    exact ⟨data, by simp [exec, withData, fresh, setTxn, record], .inl ⟨rfl, rfl⟩⟩
  | beginRegister t tx running phase =>
    exact ⟨data, by rw [exec, held running phase]; rfl, .inl ⟨rfl, rfl⟩⟩
  | write t tx tableId pk value running phase =>
    exact ⟨data, by rw [exec, held running phase]; rfl, .inl ⟨rfl, rfl⟩⟩
  | read t tx tableId pk running phase =>
    have found := held running phase
    have same : (m.withData data).read tx tableId pk = m.read tx tableId pk := by
      simp [TransactionManager.read, withData, reads t tx tableId pk rfl running phase]
    refine ⟨data, ?_, .inl ⟨rfl, rfl⟩⟩
    rw [exec, found, Option.map_some, same]
    rfl
  | conflict t tx write free running phase inside newer =>
    have found := held running phase
    have lost : (tx.writes.any fun write =>
        (m.withData data).hasConflictingVersion write tx.snapshotTs) = true :=
      List.any_eq_true.mpr ⟨write, inside, (agree t tx rfl running write inside).trans newer⟩
    refine ⟨data, ?_, .inl ⟨rfl, rfl⟩⟩
    rw [exec, found, show (m.withData data).serializer = none from free]
    simp only [Option.isSome_none, Option.map_some, commitCheck, lost, if_true]
    rfl
  | check t tx free running phase clean =>
    have found := held running phase
    have won : (tx.writes.any fun write =>
        (m.withData data).hasConflictingVersion write tx.snapshotTs) = false :=
      List.any_eq_false.mpr fun write inside => by
        simp [agree t tx rfl running write inside, clean write inside]
    refine ⟨data, ?_, .inl ⟨rfl, rfl⟩⟩
    rw [exec, found, show (m.withData data).serializer = none from free]
    simp only [Option.isSome_none, Option.map_some, commitCheck, won]
    rfl
  | commitTick t tx wall running phase =>
    exact ⟨data, by rw [exec, held running phase]; rfl, .inl ⟨rfl, rfl⟩⟩
  | commitWrite t tx commitTs running phase =>
    have found : (m.withData data).stampedTxn t = some (tx, commitTs) := by
      simp [stampedTxn, withData, running, phase]
    refine ⟨putRows data commitTs tx.writes, ?_, .inr ⟨commitTs, tx.writes, rfl, rfl⟩⟩
    rw [exec, found]
    rfl
  | commitFail t tx commitTs running phase =>
    have found : (m.withData data).stampedTxn t = some (tx, commitTs) := by
      simp [stampedTxn, withData, running, phase]
    exact ⟨data, by rw [exec, found]; rfl, .inl ⟨rfl, rfl⟩⟩
  | commitFinish t tx running phase =>
    exact ⟨data, by rw [exec, held running phase]; rfl, .inl ⟨rfl, rfl⟩⟩
  | rollback t tx running phase =>
    exact ⟨data, by rw [exec, held running phase]; rfl, .inl ⟨rfl, rfl⟩⟩
  | nextTimestamp wall => exact ⟨data, rfl, .inl ⟨rfl, rfl⟩⟩

end Steps

section Simulation

variable {s : CollectedStore} {plain next : TransactionManager} {a : TxnAction} {tableId : UInt32}
  {pk : Bytes} {ts : HlcTimestamp}

/-- No open and no later transaction can read this version: a newer one hides it. -/
def Covered (plain : TransactionManager) (tableId : UInt32) (pk : Bytes) (ts : HlcTimestamp) : Prop :=
  ∃ newer, ts < newer ∧ versionsOf plain.data tableId pk newer ≠ none ∧ newer ≤ plain.clock ∧
    ∀ t tx, plain.txns t = some tx → tx.isOpen = true → ts ≤ tx.snapshotTs → newer ≤ tx.snapshotTs

structure Collected (s : CollectedStore) (plain : TransactionManager) : Prop where
  manager : s.manager = plain.withData s.manager.data
  fewer : Fewer s.manager.data plain.data
  gone : ∀ tableId pk ts, versionsOf plain.data tableId pk ts ≠ none →
    versionsOf s.manager.data tableId pk ts = none → Covered plain tableId pk ts
  pending : ∀ tableId pk ts, (tableId, pk, ts) ∈ s.pending →
    ts.Fits ∧ Covered plain tableId pk ts
  txns : ∀ t tx, plain.txns t = some tx →
    tx.snapshotTs.Fits ∧ .began t tx.snapshotTs ∈ plain.history

theorem Collected.new {start : TransactionManager} (fresh : ∀ t, start.txns t = none) :
    Collected (.new start) start where
  manager := rfl
  fewer := fun _ _ found => found
  gone := fun _ _ _ found absent => absurd absent found
  pending := fun _ _ _ inside => by cases inside
  txns := fun t tx running => by
    rw [fresh] at running
    cases running

theorem Collected.landing (related : Collected s plain) {bound : HlcTimestamp}
    (own : SeeksOwn plain.data tableId pk bound) (fits : bound.Fits)
    (reaches : ∀ ts ≤ bound, ∀ newer, (versionsOf plain.data tableId pk newer ≠ none) →
      (∀ t tx, plain.txns t = some tx → tx.isOpen = true → ts ≤ tx.snapshotTs → newer ≤ tx.snapshotTs) →
      newer ≤ bound) : landing s.manager.data tableId pk bound = landing plain.data tableId pk bound := by
  refine landing_thin related.fewer own fits fun stamp below found absent => ?_
  obtain ⟨newer, later, stored, _, hidden⟩ := related.gone tableId pk stamp found absent
  exact ⟨newer, reaches stamp below newer stored hidden, later, stored⟩

theorem Collected.reads (related : Collected s plain) {t : TxnHandle} {tx : Transaction}
    (own : SeeksOwn plain.data tableId pk tx.snapshotTs) (running : plain.txns t = some tx)
    (opened : tx.isOpen = true) : readLatest plain.data tableId pk tx.snapshotTs =
      readLatest s.manager.data tableId pk tx.snapshotTs := by
  rw [readLatest_eq_landing, readLatest_eq_landing, related.landing own (related.txns t tx running).1]
  exact fun ts below newer _ hidden => hidden t tx running opened below

theorem Collected.checks (related : Collected s plain) (own : SeeksOwn plain.data tableId pk .max) :
    latestVisibleTsAny plain.data tableId pk = latestVisibleTsAny s.manager.data tableId pk := by
  rw [latestVisibleTsAny_eq_landing, latestVisibleTsAny_eq_landing,
    related.landing own HlcTimestamp.max_fits]
  exact fun _ _ newer stored _ => HlcTimestamp.le_max (versionsOf_ne_none.mp stored).1

theorem Covered.step (covered : Covered plain tableId pk ts) (step : TxnStep plain a next)
    (kept : ∀ stamp, versionsOf plain.data tableId pk stamp ≠ none → versionsOf next.data tableId pk stamp ≠ none) :
    Covered next tableId pk ts := by
  obtain ⟨newer, later, stored, reached, hidden⟩ := covered
  refine ⟨newer, later, kept newer stored, reached.trans step.clock_le, fun t tx running opened above => ?_⟩
  rcases step.txn_origin running with ⟨old, found, same, wasOpen⟩ | ⟨wall, _, drawn, _⟩
  · rw [← same] at above ⊢
    exact hidden t old found (wasOpen opened) above
  · rw [drawn]
    exact reached.trans (lt_advance _ _).le

theorem Collected.txn {manager : TransactionManager} (related : Collected s plain)
    (permits : SeeksFind plain a) (executed : s.manager.exec a = some manager) :
    ∃ after, plain.exec a = some after ∧ Collected { s with manager } after := by
  have txns : s.manager.txns = plain.txns := by rw [related.manager]; rfl
  have same : s.manager.withData plain.data = plain := by rw [related.manager]; rfl
  obtain ⟨data, matched, effect⟩ := (exec_step executed).over plain.data
    (fun t tx tableId pk action running active => by
      rw [txns] at running
      subst action
      exact related.reads (permits.2.1 tx running) running (by simp [Transaction.isOpen, active]))
    (fun t tx action running write inside => by
      rw [txns] at running
      subst action
      exact related.checks (permits.2.2 tx running write inside))
  rw [same] at matched
  have step := exec_step matched
  have kept : ∀ tableId pk stamp, versionsOf plain.data tableId pk stamp ≠ none →
      versionsOf data tableId pk stamp ≠ none := by
    intro tableId pk stamp found
    rcases effect.versionsOf tableId pk stamp with ⟨_, same⟩ | ⟨value, _, written⟩
    · rwa [same]
    · simp [written]
  refine ⟨_, matched, rfl, fun key value found => ?_, fun tableId pk ts found absent => ?_,
    fun tableId pk ts inside => ?_, fun t tx running => ?_⟩
  · rcases effect.get key with ⟨left, right⟩ | ⟨written, left, right⟩
    · exact right.trans (related.fewer key value (left.symm.trans found))
    · exact right.trans (left.symm.trans found)
  · rcases effect.versionsOf tableId pk ts with ⟨left, right⟩ | ⟨written, left, _⟩
    · exact (related.gone tableId pk ts (right ▸ found) (left.symm.trans absent)).step step
        (kept tableId pk)
    · rw [show versionsOf manager.data tableId pk ts = none from absent] at left
      cases left
  · obtain ⟨fits, covered⟩ := related.pending tableId pk ts inside
    exact ⟨fits, covered.step step (kept tableId pk)⟩
  · rcases step.txn_origin running with ⟨old, found, same, _⟩ | ⟨wall, rfl, drawn, began⟩
    · obtain ⟨fits, begun⟩ := related.txns t old found
      rw [← same]
      exact ⟨fits, step.history_mem begun⟩
    · obtain ⟨reading, fits, room⟩ := permits.1
      exact ⟨drawn ▸ advance_fits fits reading room, began⟩

theorem TransactionManager.mem_openSnapshots {m : TransactionManager} {t : TxnHandle}
    {tx : Transaction} (running : m.txns t = some tx) (opened : tx.isOpen = true)
    (began : .began t tx.snapshotTs ∈ m.history) : tx.snapshotTs ∈ m.openSnapshots :=
  List.mem_filterMap.mpr ⟨_, began, by simp [running, opened]⟩

theorem Collected.scan {safeHorizon : HlcTimestamp} (related : Collected s plain) (enrolled : Enrolled plain)
    (behind : Behind plain safeHorizon) (orderly : CyclesOrderly s (.gcScan tableId))
    (cycle : s.safeHorizon = some safeHorizon) (victim : (pk, ts) ∈ gcTable s.manager.data tableId safeHorizon) :
    ts.Fits ∧ Covered plain tableId pk ts := by
  obtain ⟨key, newer, raw, older, above, later, within⟩ := mem_gcTable victim
  obtain ⟨fits, _⟩ := mem_tableVersions older
  obtain ⟨bounded, rfl, stored⟩ := mem_tableVersions above
  obtain ⟨value, stored⟩ := Option.ne_none_iff_exists'.mp stored
  have kept : versionsOf plain.data tableId pk newer ≠ none := by
    rw [versionsOf, if_pos bounded, related.fewer _ _ stored]
    simp
  refine ⟨fits, newer, later, kept, enrolled.stored _ _ _ kept, fun t tx running opens _ => ?_⟩
  rcases behind with rfl | ⟨_, below⟩
  · have opened := mem_openSnapshots running opens (related.txns t tx running).2
    have none_open := orderly cycle
    rw [related.manager] at none_open
    rw [show plain.openSnapshots = [] from none_open] at opened
    cases opened
  · exact within.trans (below t tx running opens)

theorem Collected.delete {rest : List (UInt32 × Bytes × HlcTimestamp)} (related : Collected s plain)
    (head : s.pending = (tableId, pk, ts) :: rest) :
    Collected { s with
      manager := s.manager.withData (deleteVersion s.manager.data tableId pk ts)
      pending := rest } plain := by
  obtain ⟨fits, covered⟩ := related.pending tableId pk ts (by simp [head])
  refine ⟨?_, fun key value found => ?_, fun other row stamp found absent => ?_,
    fun other row stamp inside => related.pending other row stamp (by simp [head, inside]),
    related.txns⟩
  · show s.manager.withData _ = _
    rw [related.manager]
    rfl
  · refine related.fewer key value ?_
    have found : (s.manager.data.delete (encodeVersionedKey tableId pk ts)).get key = some value := found
    rw [SortedMap.get_delete] at found
    split at found
    · cases found
    · exact found
  · by_cases same : tableId = other ∧ pk = row ∧ ts = stamp
    · obtain ⟨rfl, rfl, rfl⟩ := same
      exact covered
    · have bounded := (versionsOf_ne_none.mp found).1
      have apart := mt (encodeVersionedKey_inj bounded fits).mp fun equal =>
        same ⟨equal.1.symm, equal.2.1.symm, equal.2.2.symm⟩
      refine related.gone other row stamp found ?_
      have kept : versionsOf (deleteVersion s.manager.data tableId pk ts) other row stamp =
          versionsOf s.manager.data other row stamp := by
        rw [versionsOf, if_pos bounded, deleteVersion, SortedMap.get_delete_ne apart, versionsOf,
          if_pos bounded]
      exact kept.symm.trans absent

theorem Collected.settled (related : Collected s plain) (orderly : CyclesOrderly s .gcHorizon) (t : TxnHandle)
    (tx : Transaction) (running : plain.txns t = some tx) : tx.phase ≠ .drawn := by
  intro drawn
  have waiting : t ∈ plain.unregistered :=
    List.mem_filterMap.mpr ⟨_, (related.txns t tx running).2, by simp [running, drawn]⟩
  rw [CyclesOrderly, related.manager] at orderly
  rw [show plain.unregistered = [] from orderly] at waiting
  cases waiting

/-- The two runs, with what the horizon of the cycle under way is worth. -/
structure Tracked (s : CollectedStore) (plain : TransactionManager) : Prop where
  related : Collected s plain
  enrolled : Enrolled plain
  horizon : ∀ safeHorizon ∈ s.safeHorizon, Behind plain safeHorizon

theorem Tracked.silent {next : CollectedStore} {action : StoreAction} (tracked : Tracked s plain)
    (orderly : CyclesOrderly s action) (executed : s.exec action = some next)
    (collector : action.txn? = none) : Tracked next plain := by
  obtain ⟨related, enrolled, horizon⟩ := tracked
  cases action with
  | txn a => cases collector
  | gcHorizon =>
    cases executed
    refine ⟨⟨related.manager, related.fewer, related.gone, by simp, related.txns⟩, enrolled, fun safeHorizon read => ?_⟩
    have same : s.manager.safeHorizon = plain.safeHorizon := by
      rw [related.manager]
      rfl
    cases read
    rw [same]
    exact enrolled.behind (fun t tx running => (related.txns t tx running).1) (related.settled orderly)
  | gcScan tableId =>
    simp only [CollectedStore.exec] at executed
    split at executed
    · rename_i safeHorizon cycle _
      cases executed
      refine ⟨⟨related.manager, related.fewer, related.gone, fun other pk ts inside => ?_, related.txns⟩, enrolled, horizon⟩
      obtain ⟨victim, picked, same⟩ := List.mem_map.mp inside
      cases same
      exact related.scan enrolled (horizon safeHorizon cycle) orderly cycle picked
    · cases executed
  | gcDelete =>
    simp only [CollectedStore.exec] at executed
    split at executed
    · cases executed
    · rename_i tableId pk ts rest head
      cases executed
      exact ⟨related.delete head, enrolled, horizon⟩

theorem Tracked.txn {manager : TransactionManager} (tracked : Tracked s plain) (permits : SeeksFind plain a)
    (executed : s.manager.exec a = some manager) : ∃ after, plain.exec a = some after ∧ Tracked { s with manager } after := by
  obtain ⟨related, enrolled, horizon⟩ := tracked
  obtain ⟨after, matched, relates⟩ := related.txn permits executed
  have step := exec_step matched
  exact ⟨after, matched, relates, enrolled.step (fun t tx running => (related.txns t tx running).1) step,
    fun safeHorizon read => (horizon safeHorizon read).step step⟩

end Simulation

def InvisibleGc (data : ColumnFamily) (clock : HlcTimestamp) (schedule : List StoreAction) : Prop :=
  ∀ final, runs CollectedStore.exec (.new (.new data clock)) schedule = some final →
    ∃ alone, runs exec (.new data clock) (schedule.filterMap StoreAction.txn?) =
      some alone ∧ alone.history = final.manager.history

theorem Enrolled.new {data : ColumnFamily} {clock : HlcTimestamp}
    (past : ∀ tableId pk ts, versionsOf data tableId pk ts ≠ none → ts ≤ clock) : Enrolled (.new data clock) where
  drawn := nofun
  unique := nofun
  active := nofun
  known := by simp [TransactionManager.new]
  stamped := nofun
  stored := past

/-- Every read, every commit and every conflict comes out as if the collector had not run. -/
theorem gc_invisible (data : ColumnFamily) (clock : HlcTimestamp) (schedule : List StoreAction)
    (past : ∀ tableId pk ts, versionsOf data tableId pk ts ≠ none → ts ≤ clock)
    (orderly : Throughout CollectedStore.exec CyclesOrderly (.new (.new data clock)) schedule)
    (seeks : Throughout exec SeeksFind (.new data clock)
      (schedule.filterMap StoreAction.txn?)) : InvisibleGc data clock schedule := by
  intro final ran
  obtain ⟨alone, ends, tracked⟩ := simulates Tracked ran orderly seeks
    ⟨Collected.new fun _ => rfl, Enrolled.new past, nofun⟩
    (fun s plain action next tracked orderly executed collector => tracked.silent orderly executed collector)
    (fun s plain action a next tracked _ executed visible permits => by
      cases action with
      | txn a =>
        cases visible
        obtain ⟨manager, stepped, rfl⟩ := Option.map_eq_some_iff.mp executed
        exact tracked.txn permits stepped
      | gcHorizon | gcScan | gcDelete => cases visible)
  refine ⟨alone, ends, ?_⟩
  rw [tracked.related.manager]
  rfl

section Schedules

def txnSteps (actions : List TxnAction) : List StoreAction := actions.map .txn

def gcCycle : List StoreAction := [.gcHorizon, .gcScan 7, .gcDelete]

/-- The reader begins before the second commit and reads after the cycle. -/
def openReader : List StoreAction :=
  txnSteps (begins 1 1 ++ writes 1 [97] 1 1 ++ begins 2 1 ++ writes 2 [97] 2 1 ++ begins 3 1 ++ begins 4 1 ++
    writes 4 [97] 4 1) ++ gcCycle ++ txnSteps [.read 3 7 [97]]

theorem gc_invisible_to_reader : InvisibleGc .empty .zero openReader ∧
    ((runs CollectedStore.exec (.new blank) openReader).any fun final =>
      decide (.read 3 ⟨1, 4⟩ 7 [97] (some [2]) ∈ final.manager.history)) = true :=
  ⟨gc_invisible _ _ _ (by simp [versionsOf_ne_none]) (by decide +kernel) (by decide +kernel), by decide +kernel⟩

def differs (schedule : List StoreAction) : Bool :=
  match runs CollectedStore.exec (.new blank) schedule,
    runs exec blank (schedule.filterMap StoreAction.txn?) with
  | some final, some alone => decide (alone.history ≠ final.manager.history)
  | _, _ => false

theorem not_invisible {schedule : List StoreAction} (visible : differs schedule = true) :
    ¬ InvisibleGc .empty .zero schedule := by
  intro invisible
  unfold differs at visible
  split at visible
  · rename_i final alone ran ends
    obtain ⟨other, ends', same⟩ := invisible final ran
    have ends' : runs exec blank (schedule.filterMap StoreAction.txn?) =
      some other := ends'
    rw [ends] at ends'
    cases ends'
    exact of_decide_eq_true visible same
  · cases visible

def lateRegistration : List StoreAction :=
  txnSteps (begins 1 1 ++ writes 1 [97] 1 1 ++ [.beginTick 3 1]) ++ [.gcHorizon] ++
    txnSteps (begins 2 1 ++ writes 2 [97] 2 1 ++ [.beginRegister 3]) ++ [.gcScan 7, .gcDelete] ++
    txnSteps [.read 3 7 [97]]

def beginBeforeScan : List StoreAction :=
  txnSteps (begins 1 1 ++ writes 1 [97] 1 1) ++ [.gcHorizon] ++
    txnSteps (begins 3 1 ++ begins 2 1 ++ writes 2 [97] 2 1) ++ [.gcScan 7, .gcDelete] ++ txnSteps [.read 3 7 [97]]

def wrappedSnapshot : List StoreAction :=
  txnSteps (begins 1 5 ++ writes 1 [97] 1 5 ++ begins 2 9 ++ writes 2 [97] 2 9) ++ gcCycle ++
    txnSteps (begins 3 (2 ^ 48 + 7) ++ [.read 3 7 [97]])

/-- A snapshot that is drawn and not registered when the horizon is read, one that is drawn before the
scan when none was registered, and one that is stored with 48 of its bits. -/
theorem gc_visible_schedules :
    (Throughout exec SeeksFind blank (lateRegistration.filterMap StoreAction.txn?) ∧
      ¬ InvisibleGc .empty .zero lateRegistration) ∧
    (Throughout exec SeeksFind blank (beginBeforeScan.filterMap StoreAction.txn?) ∧
      ¬ InvisibleGc .empty .zero beginBeforeScan) ∧
    (Throughout CollectedStore.exec CyclesOrderly (.new blank) wrappedSnapshot ∧
      Throughout exec (fun m a => ReadsOwn m a ∧ ChecksOwn m a) blank
        (wrappedSnapshot.filterMap StoreAction.txn?) ∧
      ¬ InvisibleGc .empty .zero wrappedSnapshot) :=
  ⟨⟨by decide +kernel, not_invisible (by decide +kernel)⟩, ⟨by decide +kernel, not_invisible (by decide +kernel)⟩,
    by decide +kernel, by decide +kernel, not_invisible (by decide +kernel)⟩

end Schedules

end Neuralbase.Storage
