import Mathlib
import Neuralbase.Library.Machine
import Neuralbase.Storage.Mvcc

namespace Neuralbase.Storage

open Neuralbase.Library
open Neuralbase.Consensus (Bytes)

/-! The garbage collector (`gc.rs`).  A cycle reads the horizon once, and then for
each table scans all versions and deletes the collectible ones one by one, while
transactions go on. -/

def TransactionManager.safeHorizon (m : TransactionManager) : HlcTimestamp :=
  match m.activeSnapshots.min with
  | (minId : Nat) => .fromU64 minId
  | ⊤ => .max

def tableVersions (data : ColumnFamily) (tableId : UInt32) : List (Bytes × HlcTimestamp × Bytes) :=
  (rawScanTableVersions data tableId).filterMap fun entry =>
    (decodePkFromKey entry.1).bind fun pk =>
      (decodeTsFromKey entry.1).map fun ts => (pk, ts, entry.1)

def collectible (safeHorizon : HlcTimestamp) (versions : List (HlcTimestamp × Bytes)) : List (HlcTimestamp × Bytes) :=
  ((versions.insertionSort fun left right => left.1 ≤ right.1).filter fun version =>
    decide (version.1 ≤ safeHorizon)).dropLast

/-- The versions `gc_table` deletes. -/
def gcTable (data : ColumnFamily) (tableId : UInt32) (safeHorizon : HlcTimestamp) : List (Bytes × HlcTimestamp) :=
  (SortedMap.groups (tableVersions data tableId)).entries.flatMap fun group =>
    (collectible safeHorizon group.2).filterMap fun version =>
      (decodePkFromKey version.2).map fun pk => (pk, version.1)

def deleteVersion (data : ColumnFamily) (tableId : UInt32) (pk : Bytes) (ts : HlcTimestamp) : ColumnFamily :=
  data.delete (encodeVersionedKey tableId pk ts)

structure CollectedStore where
  manager : TransactionManager
  /-- The horizon of the cycle under way. -/
  safeHorizon : Option HlcTimestamp
  /-- What the last scan found and is not deleted yet. -/
  pending : List (UInt32 × Bytes × HlcTimestamp)

inductive StoreAction where
  | txn (a : TxnAction)
  | gcHorizon
  | gcScan (tableId : UInt32)
  | gcDelete

def StoreAction.txn? : StoreAction → Option TxnAction
  | .txn a => some a
  | _ => none

namespace CollectedStore

def new (manager : TransactionManager) : CollectedStore where
  manager
  safeHorizon := none
  pending := []

def exec (s : CollectedStore) : StoreAction → Option CollectedStore
  | .txn a => (s.manager.exec a).map fun manager => { s with manager }
  | .gcHorizon => some { s with safeHorizon := some s.manager.safeHorizon, pending := [] }
  | .gcScan tableId =>
    match s.safeHorizon, s.pending with
    | some safeHorizon, [] => some { s with
        pending := (gcTable s.manager.data tableId safeHorizon).map fun victim => (tableId, victim) }
    | _, _ => none
  | .gcDelete =>
    match s.pending with
    | [] => none
    | (tableId, pk, ts) :: rest => some { s with
        manager := { s.manager with data := deleteVersion s.manager.data tableId pk ts }
        pending := rest }

end CollectedStore

end Neuralbase.Storage
