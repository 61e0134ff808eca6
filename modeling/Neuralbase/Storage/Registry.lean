import Neuralbase.Storage.Clock
import Neuralbase.Storage.Executor
import Neuralbase.Storage.Gc
import Neuralbase.Storage.Mvcc.Steps

namespace Neuralbase.Storage

open Neuralbase.Library
open Neuralbase.Consensus (Bytes)
open HlcTimestamp

/-! The registry of active snapshots, which is what the collector's horizon is read from
(`mvcc.rs`, `storage_executor.rs`).  Besides the steps of the transaction manager this has
the early returns that a storage error causes. -/

inductive TxnError where
  | writeConflict
  | storage
deriving DecidableEq

inductive EngineAction where
  | txn (a : TxnAction)
  /-- `latest_visible_ts_any` fails, and `commit` returns the error. -/
  | checkFails (t : TxnHandle)
  /-- `engine.scan_table` fails, and the statement returns without a rollback. -/
  | abandon (t : TxnHandle)

/-- The engine reads of an operation that fail: the scan of a table, and the conflict check
of the write at a position. -/
structure ReadFaults where
  scan : Bool
  check : Option Nat
deriving DecidableEq

namespace TransactionManager

def failTxn (m : TransactionManager) (t : TxnHandle) : Option TransactionManager :=
  (m.inPhase t .active).map fun tx => m.setTxn t { tx with phase := .failed }

def perform (m : TransactionManager) : EngineAction → Option TransactionManager
  | .txn a => m.exec a
  | .checkFails t => if m.serializer.isSome then none else m.failTxn t
  | .abandon t => m.failTxn t

/-- The check loop reaches the write whose check fails: there is one at the position, and no
earlier one is in conflict. -/
def checkFaulted (m : TransactionManager) (tx : Transaction) : Option Nat → Bool
  | none => false
  | some position => decide (position < tx.writes.length) &&
      !(tx.writes.take position).any fun write => m.hasConflictingVersion write tx.snapshotTs

def commit (m : TransactionManager) (t : TxnHandle) (wall : Nat) (succeeds : Bool) (check : Option Nat) :
    Option (TransactionManager × Except TxnError HlcTimestamp) := do
  let tx ← m.inPhase t .active
  if m.checkFaulted tx check then
    let failed ← m.perform (.checkFails t)
    pure (failed, .error .storage)
  else
    let checked ← m.perform (.txn (.commitCheck t))
    if (checked.inPhase t .conflicted).isSome then pure (checked, .error .writeConflict)
    else
      let stored ← runs perform checked [.txn (.commitTick t wall), .txn (.commitWrite t succeeds)]
      if succeeds then
        let finished ← stored.perform (.txn (.commitFinish t))
        pure (finished, .ok stored.clock)
      else pure (stored, .error .storage)

def begin (t : TxnHandle) (wall : Nat) : List EngineAction :=
  [.txn (.beginTick t wall), .txn (.beginRegister t)]

def scanRows (m : TransactionManager) (call : TxnCall) (faults : ReadFaults) (tableId : UInt32) :
    Option (TransactionManager × Except TxnError (List (Bytes × Bytes))) := do
  let opened ← runs perform m (begin call.reader call.readWall)
  if faults.scan then
    let abandoned ← opened.perform (.abandon call.reader)
    pure (abandoned, .error .storage)
  else
    let tx ← opened.txns call.reader
    let closed ← opened.perform (.txn (.rollback call.reader))
    pure (closed, .ok (scanTable opened.data tableId tx.snapshotTs))

def bufferRows (call : TxnCall) (tableId : UInt32) (rows : List (Bytes × Bytes)) : List EngineAction :=
  begin call.writer call.beginWall ++ rows.map fun row => .txn (.write call.writer tableId row.1 row.2)

def writeRow (m : TransactionManager) (call : TxnCall) (faults : ReadFaults) (tableId : UInt32)
    (pk encoded : Bytes) : Option (TransactionManager × Except TxnError Nat) := do
  let buffered ← runs perform m (bufferRows call tableId [(pk, encoded)])
  let (final, result) ← buffered.commit call.writer call.commitWall call.succeeds faults.check
  pure (final, result.map fun _ => 1)

def rewriteRows (m : TransactionManager) (call : TxnCall) (faults : ReadFaults) (tableId : UInt32)
    (change : Bytes → Option Bytes) : Option (TransactionManager × Except TxnError Nat) := do
  let (closed, scanned) ← m.scanRows call faults tableId
  match scanned with
  | .error error => pure (closed, .error error)
  | .ok rows =>
    let changed := rows.filterMap fun row => (change row.2).map fun value => (row.1, value)
    let buffered ← runs perform closed (bufferRows call tableId changed)
    if changed = [] then
      let released ← buffered.perform (.txn (.rollback call.writer))
      pure (released, .ok 0)
    else
      let (final, result) ← buffered.commit call.writer call.commitWall call.succeeds faults.check
      pure (final, result.map fun _ => changed.length)

/-- What the executor returns: no cause of a failed transaction, and of a commit no timestamp. -/
def reported {α β : Type} (value : α → β) (result : TransactionManager × Except TxnError α) :
    TransactionManager × Except ExecError β :=
  (result.1, (result.2.map value).mapError fun _ => .storage)

section Unfaulted

variable {m : TransactionManager} {call : TxnCall} {tableId : UInt32}

theorem runs_txn (actions : List TxnAction) : runs perform m (actions.map .txn) = runs exec m actions := by
  induction actions generalizing m with
  | nil => rfl
  | cons a rest induction =>
    rw [List.map_cons, runs, runs]
    exact congrArg _ (funext fun _ => induction)

theorem commit_unfaulted : (m.commit call.writer call.commitWall call.succeeds none).map (reported fun _ => ()) =
    m.commitTxn call := by
  cases found : m.inPhase call.writer .active with
  | none => simp [commit, commitTxn, exec, found]
  | some tx =>
    simp only [commit, commitTxn, found, checkFaulted, perform]
    cases m.exec (.commitCheck call.writer) with
    | none => rfl
    | some checked =>
      simp only [Option.bind_eq_bind, Option.bind_some, Bool.false_eq_true, if_false, Option.pure_def]
      split_ifs
      · rfl
      all_goals
        simp only [Option.map_bind, Function.comp_def]
        rfl

theorem bufferRows_eq (rows : List (Bytes × Bytes)) :
    runs perform m (bufferRows call tableId rows) = runs exec m (openWrites call tableId rows) := by
  rw [← runs_txn, bufferRows, openWrites, List.map_append, List.map_map]
  rfl

/-- Without faults the statements are those of the executor. -/
theorem writeRow_unfaulted {pk encoded : Bytes} :
    (m.writeRow call ⟨false, none⟩ tableId pk encoded).map (reported fun _ => ()) =
      m.insertRow call tableId pk encoded := by
  rw [writeRow, bufferRows_eq, insertRow]
  simp only [← commit_unfaulted]
  cases runs exec m (openWrites call tableId [(pk, encoded)]) with
  | none => rfl
  | some buffered =>
    change Option.map _ ((buffered.commit call.writer call.commitWall call.succeeds none).bind _) = Option.map _ _
    rcases buffered.commit call.writer call.commitWall call.succeeds none with _ | ⟨final, _ | _⟩ <;> rfl

theorem rewriteRows_unfaulted {change : Bytes → Option Bytes} :
    (m.rewriteRows call ⟨false, none⟩ tableId change).map (reported id) = m.changeRows call tableId change := by
  have scanned : m.scanRows call ⟨false, none⟩ tableId = (m.readRows call tableId).map fun read => (read.1, .ok read.2) := by
    rw [scanRows, readRows, ← runs_txn]
    simp [Option.map_bind, perform, begin]
  rw [rewriteRows, changeRows, scanned]
  cases m.readRows call tableId with
  | none => rfl
  | some read =>
    simp only [Option.map_some, Option.bind_eq_bind, Option.bind_some, Option.pure_def, bufferRows_eq]
    cases runs exec read.1 (openWrites call tableId
      (read.2.filterMap fun row => (change row.2).map fun value => (row.1, value))) with
    | none => rfl
    | some buffered =>
      simp only [Option.bind_some, perform, ← commit_unfaulted]
      split_ifs
      · cases buffered.exec (.rollback call.writer) <;> rfl
      · rcases buffered.commit call.writer call.commitWall call.succeeds none with _ | ⟨final, _ | _⟩ <;> rfl

end Unfaulted

end TransactionManager

/-- The calls on the transaction manager and the statements of the executor, each with the
clock readings and the failures it meets. -/
inductive Operation where
  | begin (t : TxnHandle) (wall : Nat)
  | read (t : TxnHandle) (tableId : UInt32) (pk : Bytes) (fails : Bool)
  | write (t : TxnHandle) (tableId : UInt32) (pk value : Bytes)
  | commit (t : TxnHandle) (wall : Nat) (succeeds : Bool) (check : Option Nat)
  | rollback (t : TxnHandle)
  | scan (tableName : String) (call : TxnCall) (faults : ReadFaults)
  | insert (tableName : String) (pk : Bytes) (encode : TableSchema → Bytes) (call : TxnCall) (faults : ReadFaults)
  | update (tableName : String) (assign : TableSchema → Bytes → Option Bytes) (call : TxnCall)
      (faults : ReadFaults)
  | delete (tableName : String) (selects : Bytes → Bool) (call : TxnCall) (faults : ReadFaults)

namespace Operation

variable (codec : SchemaCodec) (catalog : InMemoryCatalog) (m : TransactionManager)

/-- The outer error is that of the catalog, the inner one that of the transaction. -/
abbrev Outcome := Option (TransactionManager × Except ExecError (Except TxnError Unit))

def ended {α : Type} (result : TransactionManager × Except TxnError α) :
    TransactionManager × Except ExecError (Except TxnError Unit) :=
  (result.1, .ok (result.2.map fun _ => ()))

def completed (next : TransactionManager) : TransactionManager × Except ExecError (Except TxnError Unit) :=
  (next, .ok (.ok ()))

/-- An operation, if it can be made: the manager after it, and what it returns. -/
def outcome : Operation → Outcome
  | .begin t wall => (runs TransactionManager.perform m (TransactionManager.begin t wall)).map completed
  | .read t tableId pk fails =>
    if fails then (m.inPhase t .active).map fun _ => (m, .ok (.error .storage))
    else (m.perform (.txn (.read t tableId pk))).map completed
  | .write t tableId pk value => (m.perform (.txn (.write t tableId pk value))).map completed
  | .commit t wall succeeds check => (m.commit t wall succeeds check).map ended
  | .rollback t => (m.perform (.txn (.rollback t))).map completed
  | .scan tableName call faults =>
    withTable codec catalog m tableName fun _ tableId => (m.scanRows call faults tableId).map ended
  | .insert tableName pk encode call faults =>
    withTable codec catalog m tableName fun schema tableId =>
      (m.writeRow call faults tableId pk (encode schema)).map ended
  | .update tableName assign call faults =>
    withTable codec catalog m tableName fun schema tableId =>
      (m.rewriteRows call faults tableId (assign schema)).map ended
  | .delete tableName selects call faults =>
    withTable codec catalog m tableName fun _ tableId =>
      (m.rewriteRows call faults tableId fun value => if selects value then some [] else none).map ended

def exec (op : Operation) : Option TransactionManager := (op.outcome codec catalog m).map Prod.fst

def isRead : Operation → Bool
  | .read .. => true
  | _ => false

/-- The snapshots that an operation draws fit the 48 bits of a stored timestamp. -/
def SnapshotsFit : Operation → Prop
  | .begin _ wall => m.clock.HasRoom wall
  | .scan _ call _ => m.clock.HasRoom call.readWall
  | .insert _ _ _ call _ => m.clock.HasRoom call.beginWall
  | .update _ _ call _ | .delete _ _ call _ =>
    m.clock.HasRoom call.readWall ∧ (advance m.clock call.readWall).HasRoom call.beginWall
  | .read .. | .write .. | .commit .. | .rollback .. => True

/-- An operation that begins or ends transactions does not return a storage error, and the
snapshots it draws fit. -/
def Undisturbed (op : Operation) : Prop :=
  ∀ next result, op.outcome codec catalog m = some (next, .ok result) →
    op.SnapshotsFit m ∧ (result = .error .storage → op.isRead = true)

instance : (op : Operation) → Decidable (op.SnapshotsFit m)
  | .begin .. | .scan .. | .insert .. => inferInstanceAs (Decidable (HlcTimestamp.HasRoom _ _))
  | .update .. | .delete .. => inferInstanceAs (Decidable (_ ∧ _))
  | .read .. | .write .. | .commit .. | .rollback .. => .isTrue trivial

instance (op : Operation) : Decidable (op.Undisturbed codec catalog m) :=
  match made : op.outcome codec catalog m with
  | none => .isTrue fun _ _ same => absurd (made.symm.trans same) nofun
  | some (_, .error _) => .isTrue fun _ _ same => absurd (made.symm.trans same) nofun
  | some (next, .ok result) =>
    decidable_of_iff (op.SnapshotsFit m ∧ (result = .error .storage → op.isRead = true))
      ⟨fun held _ _ same => by
        cases made.symm.trans same
        exact held,
      fun held => held next result made⟩

end Operation

/-- A transaction that has begun and neither committed, rolled back nor failed.  In the
phase `drawn` its `begin` has not returned. -/
def Phase.isOpen : Phase → Bool
  | .active | .checked | .stamped _ | .written => true
  | .drawn | .committed | .conflicted | .failed | .rolledBack => false

/-- A step without a storage error, which draws a snapshot only within the stored range. -/
def FaultFree (m : TransactionManager) : EngineAction → Prop
  | .txn (.beginTick _ wall) => m.clock.HasRoom wall
  | .txn (.commitWrite _ succeeds) => succeeds = true
  | .txn _ => True
  | .checkFails _ | .abandon _ => False

/-- The registry holds the snapshots of the open transactions.  No two transactions have
the same one, so that the end of one leaves the others registered. -/
structure Registered (m : TransactionManager) : Prop where
  drawn : ∀ t tx, m.txns t = some tx →
    tx.id = tx.snapshotTs.toU64 ∧ tx.snapshotTs.Fits ∧ tx.snapshotTs ≤ m.clock
  distinct : ∀ t other tx peer, m.txns t = some tx → m.txns other = some peer →
    tx.snapshotTs = peer.snapshotTs → t = other
  registry : ∀ id, id ∈ m.activeSnapshots ↔ ∃ t tx, m.txns t = some tx ∧ tx.phase.isOpen = true ∧ tx.id = id

section Steps

variable {m next : TransactionManager} {t : TxnHandle} {tx : Transaction}

theorem Registered.unique (registered : Registered m) {other : TxnHandle} {peer : Transaction}
    (running : m.txns t = some tx) (found : m.txns other = some peer) (same : tx.id = peer.id) : t = other := by
  obtain ⟨id, fits, _⟩ := registered.drawn t tx running
  obtain ⟨key, bounded, _⟩ := registered.drawn other peer found
  refine registered.distinct t other tx peer running found ?_
  rw [← fromU64_toU64 fits, ← fromU64_toU64 bounded, ← id, ← key, same]

theorem Registered.change (registered : Registered m) (changed : Transaction) (running : m.txns t = some tx)
    (snapshot : changed.snapshotTs = tx.snapshotTs) (key : changed.id = tx.id)
    (txns : next.txns = Function.update m.txns t (some changed)) (clock : m.clock ≤ next.clock)
    (registry : ∀ id, id ∈ next.activeSnapshots ↔
      id ∈ m.activeSnapshots ∧ id ≠ tx.id ∨ changed.phase.isOpen = true ∧ id = tx.id) : Registered next := by
  have here : next.txns t = some changed := by rw [txns, Function.update_self]
  have elsewhere : ∀ other, other ≠ t → next.txns other = m.txns other := by
    intro other apart
    rw [txns, Function.update_of_ne apart]
  -- Every transaction has the snapshot and the id that it had before.
  have before : ∀ other peer, next.txns other = some peer →
      ∃ old, m.txns other = some old ∧ peer.snapshotTs = old.snapshotTs ∧ peer.id = old.id := by
    intro other peer found
    by_cases same : other = t
    · subst same
      rw [here] at found
      cases found
      exact ⟨tx, running, snapshot, key⟩
    · rw [elsewhere other same] at found
      exact ⟨peer, found, rfl, rfl⟩
  refine ⟨fun other peer found => ?_, fun first second peer rival found again same => ?_, fun id => ?_⟩
  · obtain ⟨old, held, stamp, id⟩ := before other peer found
    obtain ⟨named, fits, reached⟩ := registered.drawn other old held
    rw [id, stamp]
    exact ⟨named, fits, reached.trans clock⟩
  · obtain ⟨old, held, stamp, _⟩ := before first peer found
    obtain ⟨elder, kept, mark, _⟩ := before second rival again
    exact registered.distinct first second old elder held kept (stamp.symm.trans (same.trans mark))
  · rw [registry id, registered.registry id]
    constructor
    · rintro (⟨⟨other, peer, found, opened, rfl⟩, apart⟩ | ⟨opened, rfl⟩)
      · have foreign : other ≠ t := by
          rintro rfl
          rw [running] at found
          cases found
          exact apart rfl
        exact ⟨other, peer, (elsewhere other foreign).trans found, opened, rfl⟩
      · exact ⟨t, changed, here, opened, key⟩
    · rintro ⟨other, peer, found, opened, rfl⟩
      by_cases same : other = t
      · subst same
        rw [here] at found
        cases found
        exact .inr ⟨opened, key⟩
      · rw [elsewhere other same] at found
        exact .inl ⟨⟨other, peer, found, opened, rfl⟩, fun equal => same (registered.unique found running equal)⟩

theorem Registered.stay (registered : Registered m) (changed : Transaction) (running : m.txns t = some tx)
    (opened : tx.phase.isOpen = true) (still : changed.phase.isOpen = true)
    (snapshot : changed.snapshotTs = tx.snapshotTs) (key : changed.id = tx.id)
    (txns : next.txns = Function.update m.txns t (some changed)) (clock : m.clock ≤ next.clock)
    (registry : next.activeSnapshots = m.activeSnapshots) : Registered next := by
  refine registered.change changed running snapshot key txns clock fun id => ?_
  have inside : tx.id ∈ m.activeSnapshots := (registered.registry _).mpr ⟨t, tx, running, opened, rfl⟩
  rw [registry]
  by_cases same : id = tx.id
  · simp [same, inside, still]
  · simp [same]

theorem Registered.finish (registered : Registered m) (changed : Transaction) (running : m.txns t = some tx)
    (ended : changed.phase.isOpen = false) (snapshot : changed.snapshotTs = tx.snapshotTs)
    (key : changed.id = tx.id) (txns : next.txns = Function.update m.txns t (some changed))
    (clock : next.clock = m.clock) (registry : next.activeSnapshots = m.activeSnapshots.erase tx.id) :
    Registered next := by
  refine registered.change changed running snapshot key txns clock.ge fun id => ?_
  rw [registry, Finset.mem_erase, ended]
  simp [and_comm]

theorem Registered.tick (registered : Registered m) {wall : Nat} :
    Registered { m with clock := advance m.clock wall } where
  drawn := fun t tx running =>
    (registered.drawn t tx running).imp_right fun rest =>
      ⟨rest.1, rest.2.trans (lt_advance m.clock wall).le⟩
  distinct := registered.distinct
  registry := registered.registry

theorem Registered.beginTick (registered : Registered m) {wall : Nat} (fresh : m.txns t = none)
    (room : m.clock.HasRoom wall)
    (txns : next.txns = Function.update m.txns t (some (.new (advance m.clock wall))))
    (clock : next.clock = advance m.clock wall) (registry : next.activeSnapshots = m.activeSnapshots) :
    Registered next := by
  have fits := hasRoom_iff.mp room
  have here : next.txns t = some (.new (advance m.clock wall)) := by rw [txns, Function.update_self]
  have elsewhere : ∀ other, other ≠ t → next.txns other = m.txns other := by
    intro other apart
    rw [txns, Function.update_of_ne apart]
  -- The drawn snapshot is later than every other one.
  have later : ∀ other peer, other ≠ t → next.txns other = some peer → peer.snapshotTs < advance m.clock wall := by
    intro other peer apart found
    rw [elsewhere other apart] at found
    exact (registered.drawn other peer found).2.2.trans_lt (lt_advance m.clock wall)
  refine ⟨fun other peer found => ?_, fun first second peer rival found again same => ?_, fun id => ?_⟩
  · by_cases same : other = t
    · subst same
      rw [here] at found
      cases found
      exact ⟨rfl, fits, clock.ge⟩
    · obtain ⟨named, bounded, _⟩ := registered.drawn other peer ((elsewhere other same).symm.trans found)
      exact ⟨named, bounded, clock ▸ (later other peer same found).le⟩
  · by_cases one : first = t <;> by_cases two : second = t
    · exact one.trans two.symm
    · subst one
      rw [here] at found
      cases found
      exact absurd (later second rival two again) (same ▸ lt_irrefl _)
    · subst two
      rw [here] at again
      cases again
      exact absurd (later first peer one found) (same ▸ lt_irrefl _)
    · exact registered.distinct first second peer rival ((elsewhere first one).symm.trans found)
        ((elsewhere second two).symm.trans again) same
  · rw [registry, registered.registry id]
    constructor
    · rintro ⟨other, peer, found, opened, rfl⟩
      have apart : other ≠ t := by
        rintro rfl
        rw [fresh] at found
        cases found
      exact ⟨other, peer, (elsewhere other apart).trans found, opened, rfl⟩
    · rintro ⟨other, peer, found, opened, rfl⟩
      by_cases same : other = t
      · subst same
        rw [here] at found
        cases found
        cases opened
      · exact ⟨other, peer, (elsewhere other same).symm.trans found, opened, rfl⟩

theorem TransactionManager.perform_step {a : TxnAction} (performed : m.perform (.txn a) = some next) : TxnStep m a next :=
  exec_step performed

theorem Registered.step {action : EngineAction} (registered : Registered m)
    (performed : m.perform action = some next) (faultFree : FaultFree m action) : Registered next := by
  cases action with
  | checkFails t => exact faultFree.elim
  | abandon t => exact faultFree.elim
  | txn a =>
    cases TransactionManager.perform_step performed with
    | beginTick t wall fresh => exact registered.beginTick fresh faultFree rfl rfl rfl
    | beginRegister t tx running phase =>
      refine registered.change { tx with phase := .active } running rfl rfl rfl le_rfl fun id => ?_
      have absent : tx.id ∉ m.activeSnapshots := by
        intro inside
        obtain ⟨other, peer, found, opened, same⟩ := (registered.registry _).mp inside
        obtain rfl := registered.unique found running same
        rw [running] at found
        cases found
        rw [phase] at opened
        cases opened
      show id ∈ insert tx.id m.activeSnapshots ↔ _
      rw [Finset.mem_insert]
      by_cases same : id = tx.id
      · simp [same, Phase.isOpen]
      · simp [same]
    | write t tx tableId pk value running phase =>
      have active : tx.phase.isOpen = true := by rw [phase]; rfl
      exact registered.stay (tx.write tableId pk value) running active active rfl rfl rfl le_rfl rfl
    | read t tx tableId pk running phase => exact ⟨registered.drawn, registered.distinct, registered.registry⟩
    | conflict t tx write free running phase inside newer =>
      exact registered.finish { tx with phase := .conflicted } running rfl rfl rfl rfl rfl rfl
    | check t tx free running phase clean =>
      exact registered.stay { tx with phase := .checked } running (by rw [phase]; rfl) rfl rfl rfl rfl le_rfl rfl
    | commitTick t tx wall running phase =>
      exact registered.stay { tx with phase := .stamped (advance m.clock wall) } running (by rw [phase]; rfl)
        rfl rfl rfl rfl (lt_advance m.clock wall).le rfl
    | commitWrite t tx commitTs running phase =>
      exact registered.stay { tx with phase := .written } running (by rw [phase]; rfl) rfl rfl rfl rfl le_rfl rfl
    | commitFail t tx commitTs running phase => cases faultFree
    | commitFinish t tx running phase =>
      exact registered.finish { tx with phase := .committed } running rfl rfl rfl rfl rfl rfl
    | rollback t tx running phase =>
      exact registered.finish { tx with phase := .rolledBack, writes := [] } running rfl rfl rfl rfl rfl rfl
    | nextTimestamp wall => exact registered.tick

end Steps

section Operations

open TransactionManager

variable {m opened closed buffered final : TransactionManager} {t : TxnHandle} {wall : Nat} {call : TxnCall}
  {faults : ReadFaults} {tableId : UInt32}

theorem Registered.begin (registered : Registered m) (room : m.clock.HasRoom wall)
    (began : runs TransactionManager.perform m (TransactionManager.begin t wall) = some opened) :
    Registered opened ∧ opened.clock = advance m.clock wall := by
  obtain ⟨ticked, drawn, rest⟩ := Option.bind_eq_some_iff.mp began
  obtain ⟨_, entered, ended⟩ := Option.bind_eq_some_iff.mp rest
  cases ended
  refine ⟨(registered.step drawn room).step entered trivial, ?_⟩
  cases perform_step drawn with
  | beginTick t wall fresh =>
    cases perform_step entered with
    | beginRegister t tx running phase => rfl

theorem Registered.buffer {rows : List (Bytes × Bytes)} (registered : Registered m)
    (room : m.clock.HasRoom call.beginWall)
    (ran : runs TransactionManager.perform m (bufferRows call tableId rows) = some buffered) : Registered buffered := by
  rw [bufferRows, runs_append] at ran
  obtain ⟨opened, began, wrote⟩ := Option.bind_eq_some_iff.mp ran
  have registered := (registered.begin room began).1
  clear ran began
  induction rows generalizing opened with
  | nil =>
    cases wrote
    exact registered
  | cons row rest induction =>
    obtain ⟨next, written, wrote⟩ := Option.bind_eq_some_iff.mp wrote
    exact induction next wrote (registered.step written trivial)

theorem Registered.commit {succeeds : Bool} {check : Option Nat} {result : Except TxnError HlcTimestamp}
    (registered : Registered m) (committed : m.commit t wall succeeds check = some (final, result))
    (stored : result ≠ .error .storage) : Registered final := by
  obtain ⟨tx, running, committed⟩ := Option.bind_eq_some_iff.mp committed
  split at committed
  · obtain ⟨failed, _, rest⟩ := Option.bind_eq_some_iff.mp committed
    cases rest
    exact absurd rfl stored
  · obtain ⟨checked, passed, committed⟩ := Option.bind_eq_some_iff.mp committed
    have registered := registered.step passed trivial
    split at committed
    · cases committed
      exact registered
    · obtain ⟨written, ran, committed⟩ := Option.bind_eq_some_iff.mp committed
      split at committed
      · rename_i succeeded
        obtain ⟨finished, ending, rest⟩ := Option.bind_eq_some_iff.mp committed
        cases rest
        obtain ⟨stamped, drawn, ran⟩ := Option.bind_eq_some_iff.mp ran
        obtain ⟨_, batched, same⟩ := Option.bind_eq_some_iff.mp ran
        cases same
        exact ((registered.step drawn trivial).step batched succeeded).step ending trivial
      · cases committed
        exact absurd rfl stored

theorem Registered.scan {result : Except TxnError (List (Bytes × Bytes))} (registered : Registered m)
    (room : m.clock.HasRoom call.readWall) (scanned : m.scanRows call faults tableId = some (closed, result))
    (stored : result ≠ .error .storage) : Registered closed ∧ closed.clock = advance m.clock call.readWall := by
  obtain ⟨opened, began, scanned⟩ := Option.bind_eq_some_iff.mp scanned
  obtain ⟨registered, clock⟩ := registered.begin room began
  split at scanned
  · obtain ⟨abandoned, _, rest⟩ := Option.bind_eq_some_iff.mp scanned
    cases rest
    exact absurd rfl stored
  · obtain ⟨tx, running, scanned⟩ := Option.bind_eq_some_iff.mp scanned
    obtain ⟨released, rolledBack, rest⟩ := Option.bind_eq_some_iff.mp scanned
    cases rest
    refine ⟨registered.step rolledBack trivial, ?_⟩
    cases perform_step rolledBack with
    | rollback t tx running phase => exact clock

theorem Registered.writeRow {pk encoded : Bytes} {result : Except TxnError Nat} (registered : Registered m)
    (room : m.clock.HasRoom call.beginWall)
    (inserted : m.writeRow call faults tableId pk encoded = some (final, result))
    (stored : result ≠ .error .storage) : Registered final := by
  obtain ⟨buffered, ran, inserted⟩ := Option.bind_eq_some_iff.mp inserted
  obtain ⟨⟨last, ending⟩, committed, rest⟩ := Option.bind_eq_some_iff.mp inserted
  cases rest
  refine (registered.buffer room ran).commit committed ?_
  rintro rfl
  exact stored rfl

theorem Registered.rewriteRows {change : Bytes → Option Bytes} {result : Except TxnError Nat}
    (registered : Registered m) (readRoom : m.clock.HasRoom call.readWall)
    (writeRoom : (advance m.clock call.readWall).HasRoom call.beginWall)
    (rewritten : m.rewriteRows call faults tableId change = some (final, result))
    (stored : result ≠ .error .storage) : Registered final := by
  obtain ⟨⟨closed, read⟩, scanned, rewritten⟩ := Option.bind_eq_some_iff.mp rewritten
  cases read with
  | error error =>
    cases rewritten
    refine (registered.scan readRoom scanned ?_).1
    rintro ⟨⟩
    exact stored rfl
  | ok rows =>
    obtain ⟨registered, clock⟩ := registered.scan readRoom scanned nofun
    obtain ⟨buffered, ran, rewritten⟩ := Option.bind_eq_some_iff.mp rewritten
    have registered := registered.buffer (clock ▸ writeRoom) ran
    split at rewritten
    · obtain ⟨released, rolledBack, rest⟩ := Option.bind_eq_some_iff.mp rewritten
      cases rest
      exact registered.step rolledBack trivial
    · obtain ⟨⟨last, ending⟩, committed, rest⟩ := Option.bind_eq_some_iff.mp rewritten
      cases rest
      refine registered.commit committed ?_
      rintro rfl
      exact stored rfl

theorem withTable_ended {α : Type} {codec : SchemaCodec} {catalog : InMemoryCatalog} {tableName : String}
    {run : TableSchema → UInt32 → Option (TransactionManager × Except TxnError α)}
    {result : Except ExecError (Except TxnError Unit)}
    (made : withTable codec catalog m tableName (fun schema tableId => (run schema tableId).map Operation.ended) =
      some (final, result)) :
    final = m ∨ ∃ schema tableId outcome, run schema tableId = some (final, outcome) ∧
      result = .ok (outcome.map fun _ => ()) := by
  unfold withTable at made
  split at made
  · cases made
    exact .inl rfl
  · obtain ⟨⟨last, outcome⟩, ran, same⟩ := Option.map_eq_some_iff.mp made
    cases same
    exact .inr ⟨_, _, outcome, ran, rfl⟩

theorem Registered.operation {codec : SchemaCodec} {catalog : InMemoryCatalog} {op : Operation}
    (registered : Registered m) (undisturbed : op.Undisturbed codec catalog m)
    (executed : op.exec codec catalog m = some final) : Registered final := by
  obtain ⟨⟨last, result⟩, made, rfl⟩ := Option.map_eq_some_iff.mp executed
  -- What the operation returns is not a storage error, unless it is a read.
  have stored {α : Type} {outcome : Except TxnError α} (same : result = .ok (outcome.map fun _ => ()))
      (ends : op.isRead = false) : op.SnapshotsFit m ∧ outcome ≠ .error .storage := by
    subst same
    obtain ⟨fits, harmless⟩ := undisturbed _ _ made
    refine ⟨fits, ?_⟩
    rintro rfl
    rw [harmless rfl] at ends
    cases ends
  cases op with
  | begin t wall =>
    obtain ⟨opened, began, same⟩ := Option.map_eq_some_iff.mp made
    cases same
    exact (registered.begin (undisturbed _ _ made).1 began).1
  | read t tableId pk fails =>
    simp only [Operation.outcome] at made
    split at made
    · obtain ⟨tx, running, same⟩ := Option.map_eq_some_iff.mp made
      cases same
      exact registered
    · obtain ⟨next, performed, same⟩ := Option.map_eq_some_iff.mp made
      cases same
      exact registered.step performed trivial
  | write t tableId pk value =>
    obtain ⟨next, performed, same⟩ := Option.map_eq_some_iff.mp made
    cases same
    exact registered.step performed trivial
  | commit t wall succeeds check =>
    obtain ⟨⟨next, outcome⟩, committed, same⟩ := Option.map_eq_some_iff.mp made
    cases same
    exact registered.commit committed (stored rfl rfl).2
  | rollback t =>
    obtain ⟨next, performed, same⟩ := Option.map_eq_some_iff.mp made
    cases same
    exact registered.step performed trivial
  | scan tableName call faults =>
    simp only [Operation.outcome] at made
    rcases withTable_ended made with rfl | ⟨schema, tableId, outcome, scanned, same⟩
    · exact registered
    · obtain ⟨fits, clean⟩ := stored same rfl
      exact (registered.scan fits scanned clean).1
  | insert tableName pk encode call faults =>
    simp only [Operation.outcome] at made
    rcases withTable_ended made with rfl | ⟨schema, tableId, outcome, inserted, same⟩
    · exact registered
    · obtain ⟨fits, clean⟩ := stored same rfl
      exact registered.writeRow fits inserted clean
  | update tableName assign call faults =>
    simp only [Operation.outcome] at made
    rcases withTable_ended made with rfl | ⟨schema, tableId, outcome, updated, same⟩
    · exact registered
    · obtain ⟨fits, clean⟩ := stored same rfl
      exact registered.rewriteRows fits.1 fits.2 updated clean
  | delete tableName selects call faults =>
    simp only [Operation.outcome] at made
    rcases withTable_ended made with rfl | ⟨schema, tableId, outcome, deleted, same⟩
    · exact registered
    · obtain ⟨fits, clean⟩ := stored same rfl
      exact registered.rewriteRows fits.1 fits.2 deleted clean

end Operations

theorem Registered.new (data : ColumnFamily) (clock : HlcTimestamp) : Registered (.new data clock) where
  drawn := nofun
  distinct := nofun
  registry := fun id => ⟨fun inside => absurd inside (Finset.notMem_empty id), nofun⟩

theorem Registered.safeHorizon {m : TransactionManager} (registered : Registered m) : m.safeHorizon = .max ∨
      ∃ t tx, m.txns t = some tx ∧ tx.phase.isOpen = true ∧ m.safeHorizon = tx.snapshotTs := by
  cases least : m.activeSnapshots.min with
  | top =>
    left
    rw [TransactionManager.safeHorizon, least]
  | coe minId =>
    right
    obtain ⟨t, tx, running, opened, same⟩ := (registered.registry minId).mp (Finset.mem_of_min least)
    obtain ⟨id, fits, _⟩ := registered.drawn t tx running
    refine ⟨t, tx, running, opened, ?_⟩
    rw [TransactionManager.safeHorizon, least]
    show fromU64 minId = tx.snapshotTs
    rw [← same, id, fromU64_toU64 fits]

/-- In a run whose operations meet no storage error, the registry holds exactly the
snapshots of the open transactions, and no finished one holds the horizon back. -/
theorem registry_exact (codec : SchemaCodec) (catalog : InMemoryCatalog) (data : ColumnFamily)
    (clock : HlcTimestamp) (ops : List Operation) (final : TransactionManager)
    (ran : runs (Operation.exec codec catalog) (.new data clock) ops = some final)
    (undisturbed : Throughout (Operation.exec codec catalog) (Operation.Undisturbed codec catalog) (.new data clock) ops) :
    (∀ id, id ∈ final.activeSnapshots ↔
      ∃ t tx, final.txns t = some tx ∧ tx.phase.isOpen = true ∧ tx.snapshotTs.toU64 = id) ∧ (final.safeHorizon = .max ∨
      ∃ t tx, final.txns t = some tx ∧ tx.phase.isOpen = true ∧ final.safeHorizon = tx.snapshotTs) := by
  have registered : Registered final :=
    keeps Registered ran undisturbed (.new data clock) fun m op next registered calm executed =>
      registered.operation calm executed
  refine ⟨fun id => (registered.registry id).trans ?_, registered.safeHorizon⟩
  constructor
  · rintro ⟨t, tx, running, opened, same⟩
    exact ⟨t, tx, running, opened, (registered.drawn t tx running).1 ▸ same⟩
  · rintro ⟨t, tx, running, opened, same⟩
    exact ⟨t, tx, running, opened, (registered.drawn t tx running).1.trans same⟩

def pairsTable : InMemoryCatalog := fun name =>
  if name = "pairs" then some { name, columns := [{ name := "a", dataType := "INT" }, { name := "b", dataType := "INT" }] }
  else none

/-- Two transactions write a row and the second to commit loses.  A third stays open while a
row is inserted. -/
def lostAndOpen : List Operation :=
  [.begin 0 5, .begin 1 5, .write 0 7 [1] [2], .write 1 7 [1] [3], .commit 0 6 true none, .commit 1 6 true none,
    .begin 2 7, .insert "pairs" [1] (fun _ => [1, 2]) ⟨3, 4, 8, 8, 9, true⟩ ⟨false, none⟩]

theorem registry_exact_lostAndOpen :
    ∃ final, runs (Operation.exec plainSchemas pairsTable) (.new .empty ⟨1, 0⟩) lostAndOpen = some final ∧
      (final.txns 1).map Transaction.phase = some .conflicted ∧ final.safeHorizon = ⟨7, 0⟩ ∧
      ∀ id, id ∈ final.activeSnapshots ↔
        ∃ t tx, final.txns t = some tx ∧ tx.phase.isOpen = true ∧ tx.snapshotTs.toU64 = id := by
  have seen : (runs (Operation.exec plainSchemas pairsTable) (.new .empty ⟨1, 0⟩) lostAndOpen).map
      (fun final => ((final.txns 1).map Transaction.phase, final.safeHorizon)) =
        some (some .conflicted, ⟨7, 0⟩) := by
    decide +kernel
  obtain ⟨final, ran, same⟩ := Option.map_eq_some_iff.mp seen
  obtain ⟨lost, horizon⟩ := Prod.mk.inj same
  have undisturbed : Throughout (Operation.exec plainSchemas pairsTable) (Operation.Undisturbed plainSchemas pairsTable)
      (.new .empty ⟨1, 0⟩) lostAndOpen := by
    decide +kernel
  exact ⟨final, ran, lost, horizon, (registry_exact _ _ _ _ _ final ran undisturbed).1⟩

def storageErrors : List (List Operation) :=
  [[.scan "pairs" ⟨0, 1, 5, 5, 6, true⟩ ⟨true, none⟩],
    [.begin 0 5, .write 0 7 [1] [2], .commit 0 6 true (some 0)],
    [.begin 0 5, .write 0 7 [1] [2], .commit 0 6 false none]]

/-- After each of the errors no transaction is open, and a snapshot is registered that holds
the horizon back. -/
theorem registry_leaks : storageErrors.Forall fun ops =>
    ∃ final, runs (Operation.exec plainSchemas pairsTable) (.new .empty ⟨1, 0⟩) ops = some final ∧
      (∀ t tx, final.txns t = some tx → tx.phase.isOpen = false) ∧
      HlcTimestamp.toU64 ⟨5, 0⟩ ∈ final.activeSnapshots ∧ final.safeHorizon = ⟨5, 0⟩ := by
  have seen : ∀ ops ∈ storageErrors, (runs (Operation.exec plainSchemas pairsTable) (.new .empty ⟨1, 0⟩) ops).map
      (fun final => (final.activeSnapshots, final.safeHorizon, (final.txns 0).map Transaction.phase)) =
        some ({toU64 ⟨5, 0⟩}, ⟨5, 0⟩, some .failed) := by
    decide +kernel
  have others : ∀ ops ∈ storageErrors, ∀ t, (runs (Operation.exec plainSchemas pairsTable) (.new .empty ⟨1, 0⟩) ops).map
      (fun final => (final.txns (t + 1)).isSome) = some false := by
    have known : pairsTable.getTable plainSchemas "pairs" ≠ none := by decide +kernel
    obtain ⟨schema, known⟩ := Option.ne_none_iff_exists'.mp known
    intro ops inside t
    simp only [storageErrors, List.mem_cons, List.not_mem_nil, or_false] at inside
    rcases inside with rfl | rfl | rfl
    · rw [runs, Operation.exec, Operation.outcome, withTable, known]
      rfl
    · rfl
    · rfl
  rw [List.forall_iff_forall_mem]
  intro ops inside
  obtain ⟨final, ran, same⟩ := Option.map_eq_some_iff.mp (seen ops inside)
  obtain ⟨registered, rest⟩ := Prod.mk.inj same
  obtain ⟨horizon, failed⟩ := Prod.mk.inj rest
  refine ⟨final, ran, fun t tx running => ?_, registered ▸ Finset.mem_singleton_self _, horizon⟩
  cases t with
  | zero =>
    rw [running] at failed
    rw [Option.some.inj failed]
    rfl
  | succ t =>
    have none := others ops inside t
    rw [ran, Option.map_some, running] at none
    cases none

end Neuralbase.Storage
