import Neuralbase.Replicated.Identity
import Neuralbase.Storage.Executor

namespace Neuralbase.Replicated

open Neuralbase.Library Neuralbase.Storage
open Neuralbase.Consensus (Bytes LogEntry)

/-! The state machine behind the Raft log (`replicated_state_machine.rs`).  A committed
entry advances one durable apply cursor, in the same write batch as its effects. -/

structure ReplicatedApplyState where
  lastAppliedIndex : Nat
  lastCommitTs : Nat
deriving DecidableEq

inductive ReplicatedApplyOutcome where
  | ignoredNonSql
  | alreadyApplied (index : Nat)
  | applied (index : Nat) (commandTag : String) (affectedRows : Option Nat)
deriving DecidableEq

inductive ReplicatedSqlApplyError where
  | codec (error : MutationCodecError)
  | identityCodec (error : IdentityCodecError)
  | identityState (error : IdentityStateError)
  | identityNotInitialized
  | conflictingIdentityInitialization
  | storage
  | rocks
  | catalogSerialization
  | corruptApplyState (length : Nat)
  | tableIdMismatch (table : String) (commandTableId derivedTableId : UInt32)
  | nonMonotonicCommitTimestamp (commitTs lastCommitTs : Nat)
deriving DecidableEq

def applyStateKey : Bytes := utf8 "raft/sql/apply-state-v1"
def replicatedIdentityStateKey : Bytes := utf8 "raft/identity/state-v1"

inductive EngineCall where
  | readApplyState
  | readIdentity
  | scanVersions
  | write
deriving DecidableEq

abbrev Faults := EngineCall → Bool

def noFaults : Faults := fun _ => false

namespace ReplicatedApplyState

def encode (state : ReplicatedApplyState) : Bytes :=
  toBeBytes 8 state.lastAppliedIndex ++ toBeBytes 8 state.lastCommitTs

def decode (bytes : Bytes) : Except ReplicatedSqlApplyError ReplicatedApplyState :=
  if bytes.length ≠ 16 then .error (.corruptApplyState bytes.length)
  else .ok
    { lastAppliedIndex := fromBeBytes (bytes.take 8), lastCommitTs := fromBeBytes (bytes.drop 8) }

end ReplicatedApplyState

section Reads

variable (faults : Faults) (db : Database)

def loadState : Except ReplicatedSqlApplyError ReplicatedApplyState :=
  if faults .readApplyState then .error .rocks
  else
    match (db .metadata).get applyStateKey with
    | some bytes => ReplicatedApplyState.decode bytes
    | none => .ok { lastAppliedIndex := 0, lastCommitTs := 0 }

def ReplicatedIdentityState.load : Except IdentityStateError (Option ReplicatedIdentityState) :=
  if faults .readIdentity then .error .rocks
  else
    match (db .metadata).get replicatedIdentityStateKey with
    | some bytes => (ReplicatedIdentityState.decode bytes).map some
    | none => .ok none

def loadedIdentity : Except ReplicatedSqlApplyError ReplicatedIdentityState := do
  match ← (ReplicatedIdentityState.load faults db).mapError .identityState with
  | some state => pure state
  | none => throw .identityNotInitialized

def scanVersions (tableId : UInt32) : Except ReplicatedSqlApplyError (List (Bytes × Bytes)) :=
  if faults .scanVersions then .error .storage else .ok (rawScanTableVersions (db .data) tableId)

end Reads

/-- What a call does to the node after its reads and checks, in the order of the source. -/
inductive Effect where
  | writeBatch (batch : WriteBatch)
  | createTable (schema : TableSchema)
  | dropTable (table : String)
  | observeCommitted (committed : HlcTimestamp)

abbrev Plan := List Effect × ReplicatedApplyOutcome

def putApplyState (state : ReplicatedApplyState) : BatchOp :=
  putCf .metadata applyStateKey state.encode

section Apply

variable (codec : SchemaCodec) (faults : Faults) (db : Database)

def advanceControlApply (raftIndex : Nat) (previous : ReplicatedApplyState) : Plan :=
  ([.writeBatch [putApplyState { lastAppliedIndex := raftIndex, lastCommitTs := previous.lastCommitTs }]],
    .ignoredNonSql)

def nextIdentity : ReplicatedIdentityMutation → Except ReplicatedSqlApplyError ReplicatedIdentityState
  | .initializeUsers users => do
      let requested ← (ReplicatedIdentityState.new users).mapError .identityState
      match ← (ReplicatedIdentityState.load faults db).mapError .identityState with
      | none => pure requested
      | some existing =>
        if existing = requested then pure existing else throw .conflictingIdentityInitialization
  | .createUser username credential => do
      let state ← loadedIdentity faults db
      (ReplicatedIdentityState.settled (state.createUser { username, credential })).mapError .identityState
  | .alterUser username credential => do
      let state ← loadedIdentity faults db
      (ReplicatedIdentityState.settled (state.alterUser { username, credential })).mapError .identityState
  | .dropUser username ifExists => do
      let state ← loadedIdentity faults db
      (ReplicatedIdentityState.settled (state.dropUser username ifExists)).mapError .identityState

def applyIdentity (raftIndex : Nat) (mutation : ReplicatedIdentityMutation)
    (previous : ReplicatedApplyState) : Except ReplicatedSqlApplyError Plan := do
  let state ← nextIdentity faults db mutation
  let encoded ← state.encode.mapError .identityState
  pure ([.writeBatch [
      putCf .metadata replicatedIdentityStateKey encoded,
      putApplyState { lastAppliedIndex := raftIndex, lastCommitTs := previous.lastCommitTs }]],
    .applied raftIndex mutation.commandTag none)

def validateCommitOrder (mutation : ReplicatedMutation) (previous : ReplicatedApplyState) :
    Except ReplicatedSqlApplyError Unit :=
  match mutation.commitTs with
  | some commitTs =>
    if commitTs ≤ previous.lastCommitTs then
      .error (.nonMonotonicCommitTimestamp commitTs previous.lastCommitTs)
    else .ok ()
  | none => .ok ()

def checkTableId (table : String) (commandTableId : UInt32) : Except ReplicatedSqlApplyError Unit :=
  if commandTableId ≠ tableIdFor table then
    .error (.tableIdMismatch table commandTableId (tableIdFor table))
  else .ok ()

def validateTableId : ReplicatedMutation → Except ReplicatedSqlApplyError Unit
  | .createTable _ => .ok ()
  | .dropTable table tableId | .insertRows table tableId _ _ | .updateRows table tableId _ _
  | .deleteRows table tableId _ _ => checkTableId table tableId

def putRows (tableId : UInt32) (commitTs : Nat) (rows : List ReplicatedRowWrite) : WriteBatch :=
  rows.map fun row =>
    putCf .data (encodeVersionedKey tableId row.primaryKey (.fromU64 commitTs)) row.value

def mutationBatch : ReplicatedMutation → Except ReplicatedSqlApplyError WriteBatch
  | .createTable schema =>
    match codec.toVec schema with
    | some serialized => .ok [putCf .catalog (catalogKey codec schema.name) serialized]
    | none => .error .catalogSerialization
  | .dropTable table tableId => do
      let versions ← scanVersions faults db tableId
      pure (deleteCf .catalog (catalogKey codec table) ::
        versions.map fun version => deleteCf .data version.1)
  | .insertRows _ tableId commitTs rows | .updateRows _ tableId commitTs rows =>
    .ok (putRows tableId commitTs rows)
  | .deleteRows _ tableId commitTs primaryKeys =>
    .ok (primaryKeys.map fun primaryKey =>
      putCf .data (encodeVersionedKey tableId primaryKey (.fromU64 commitTs)) [])

def memoryEffects (mutation : ReplicatedMutation) : List Effect :=
  (match mutation with
    | .createTable schema => [.createTable schema]
    | .dropTable table _ => [.dropTable table]
    | _ => []) ++
  (match mutation.commitTs with
    | some commitTs => [.observeCommitted (.fromU64 commitTs)]
    | none => [])

def applySql (raftIndex : Nat) (mutation : ReplicatedMutation) (previous : ReplicatedApplyState) :
    Except ReplicatedSqlApplyError Plan := do
  validateCommitOrder mutation previous
  validateTableId mutation
  let batch ← mutationBatch codec faults db mutation
  let newState : ReplicatedApplyState :=
    { lastAppliedIndex := raftIndex
      lastCommitTs := mutation.commitTs.getD previous.lastCommitTs }
  pure (.writeBatch (batch ++ [putApplyState newState]) :: memoryEffects mutation,
    .applied raftIndex mutation.commandTag mutation.affectedRows)

def planEntry (entry : LogEntry) : Except ReplicatedSqlApplyError Plan := do
  let previous ← loadState faults db
  if entry.index ≤ previous.lastAppliedIndex then
    pure ([], .alreadyApplied entry.index)
  else if isReplicatedIdentityMutation entry.command then do
    let mutation ← (ReplicatedIdentityMutation.decode entry.command).mapError .identityCodec
    applyIdentity faults db entry.index mutation previous
  else if ¬ isReplicatedMutation entry.command then
    pure (advanceControlApply entry.index previous)
  else do
    let mutation ← (ReplicatedMutation.decode entry.command).mapError .codec
    applySql codec faults db entry.index mutation previous

end Apply

structure ReplicatedSqlStateMachine where
  db : Database
  catalog : InMemoryCatalog
  clock : HlcTimestamp

namespace ReplicatedSqlStateMachine

variable (codec : SchemaCodec) (faults : Faults)

def perform (machine : ReplicatedSqlStateMachine) :
    Effect → Except ReplicatedSqlApplyError ReplicatedSqlStateMachine
  | .writeBatch batch =>
    if faults .write then .error .storage
    else .ok { machine with db := machine.db.writeBatch batch }
  | .createTable schema => .ok { machine with catalog := machine.catalog.createTable codec schema }
  | .dropTable table => .ok { machine with catalog := machine.catalog.dropTable codec table }
  | .observeCommitted committed =>
    .ok { machine with clock := observeCommitted machine.clock committed }

def performAll (machine : ReplicatedSqlStateMachine) :
    List Effect → ReplicatedSqlStateMachine × Except ReplicatedSqlApplyError Unit
  | [] => (machine, .ok ())
  | effect :: rest =>
    match machine.perform codec faults effect with
    | .ok next => next.performAll rest
    | .error error => (machine, .error error)

def applyLogEntry (machine : ReplicatedSqlStateMachine) (entry : LogEntry) :
    ReplicatedSqlStateMachine × Except ReplicatedSqlApplyError ReplicatedApplyOutcome :=
  match planEntry codec faults machine.db entry with
  | .error error => (machine, .error error)
  | .ok (effects, outcome) =>
    ((machine.performAll codec faults effects).1,
      (machine.performAll codec faults effects).2.map fun _ => outcome)

/-- What the disk holds if the process dies inside a call, after some of its effects. -/
def crashedAfter (machine : ReplicatedSqlStateMachine) (entry : LogEntry) (effects : Nat) : Database :=
  match planEntry codec faults machine.db entry with
  | .error _ => machine.db
  | .ok (planned, _) => (machine.performAll codec faults (planned.take effects)).1.db

/-- Start-up: the catalog cache is rebuilt over the built-in tables, and the clock learns
the last commit timestamp. -/
def new (builtin : InMemoryCatalog) (db : Database) : Except ReplicatedSqlApplyError ReplicatedSqlStateMachine :=
  match loadAll codec (db .catalog) with
  | none => .error .catalogSerialization
  | some schemas => do
      let state ← loadState faults db
      pure {
        db
        catalog := schemas.foldl (·.createTable codec ·) builtin
        clock :=
          if state.lastCommitTs ≠ 0 then observeCommitted .zero (.fromU64 state.lastCommitTs)
          else .zero }

end ReplicatedSqlStateMachine

/-- What a new leader appends before it serves statements (`replicated_gateway.rs`). -/
def sqlReadinessBarrier : Bytes := utf8 "NBRB" ++ [1]

end Neuralbase.Replicated
