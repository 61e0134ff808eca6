import Neuralbase.Replicated.ExactlyOnce
import Neuralbase.Replicated.Snapshot
import Neuralbase.Replicated.StateMachine

namespace Neuralbase.Replicated

open Neuralbase.Library Neuralbase.Storage
open Neuralbase.Consensus (Bytes)

/-! The tables that the snapshot format can write. -/

namespace Snapshot

section Format

variable {table : SnapshotTable}

theorem validateMetadata_eq_ok {metadata : SnapshotMetadata} : validateMetadata metadata = .ok () ↔
    metadata.latestSqlApplyIndex ≤ metadata.lastIncludedIndex ∧
      (metadata.latestSqlApplyIndex = 0 → metadata.latestCommitTs = 0) := by
  unfold validateMetadata
  split_ifs with beyond stamped
  · simp [beyond]
  · simp [stamped]
  · simp only [true_iff]
    exact ⟨not_lt.mp beyond, fun unapplied => not_not.mp fun dated => stamped ⟨unapplied, dated⟩⟩

theorem ensureOrder_eq_ok {error : SnapshotCodecError} {keys : List Bytes} :
    ensureOrder error keys = .ok () ↔ keys.Pairwise (· < ·) := by
  rw [← List.isChain_iff_pairwise]
  induction keys with
  | nil => simp [ensureOrder]
  | cons first rest induction =>
    cases rest with
    | nil => simp [ensureOrder]
    | cons second rest =>
      rw [ensureOrder, List.isChain_cons_cons, ← induction]
      by_cases below : second ≤ first
      · simp [below]
      · simp [below, not_le.mp below]

theorem putBytes_exists {field : SnapshotField} {value : Bytes} (valid : validateField field value = .ok ()) :
    ∃ code, putBytes field value = .ok code := by
  unfold validateField at valid
  split_ifs at valid with large
  exact ⟨_, if_neg large⟩

theorem putColumn_exists {column : ColumnDef} (valid : validateColumn column = .ok ()) :
    ∃ code, putColumn column = .ok code := by
  obtain ⟨_, valid⟩ := guard_eq_ok.mp valid
  obtain ⟨_, valid⟩ := guard_eq_ok.mp valid
  obtain ⟨name, dataType⟩ := check_eq_ok.mp valid
  obtain ⟨first, named⟩ := putBytes_exists name
  obtain ⟨second, typed⟩ := putBytes_exists dataType
  exact ⟨first ++ second, bind_eq_ok.mpr ⟨first, named, bind_eq_ok.mpr ⟨second, typed, rfl⟩⟩⟩

theorem putRow_exists {row : SnapshotRow} (valid : validateRow row = .ok ()) : ∃ code, putRow row = .ok code := by
  obtain ⟨key, value⟩ := check_eq_ok.mp valid
  obtain ⟨first, keyed⟩ := putBytes_exists key
  obtain ⟨second, valued⟩ := putBytes_exists value
  exact ⟨first ++ second, bind_eq_ok.mpr ⟨first, keyed, bind_eq_ok.mpr ⟨second, valued, rfl⟩⟩⟩

theorem putCount_eq {most value : Nat} {item : SnapshotItem} (few : value ≤ most) (narrow : most < 2 ^ 32) :
    putCount most item value = .ok (toBeBytes 4 value) :=
  if_neg (by omega)

theorem putTable_exists (valid : validateTable table = .ok ()) : ∃ code, putTable table = .ok code := by
  obtain ⟨_, valid⟩ := guard_eq_ok.mp valid
  obtain ⟨columnCount, valid⟩ := guard_eq_ok.mp valid
  obtain ⟨rowCount, valid⟩ := guard_eq_ok.mp valid
  obtain ⟨columns, valid⟩ := check_eq_ok.mp valid
  obtain ⟨name, valid⟩ := check_eq_ok.mp valid
  obtain ⟨rows, _⟩ := check_eq_ok.mp valid
  obtain ⟨named, first⟩ := putBytes_exists name
  obtain ⟨described, second⟩ := putMany_exists fun column inside =>
    putColumn_exists (forM_eq_ok.mp columns column inside)
  obtain ⟨filled, third⟩ := putMany_exists fun row inside => putRow_exists (forM_eq_ok.mp rows row inside)
  exact ⟨_, bind_eq_ok.mpr ⟨named, first, bind_eq_ok.mpr ⟨_, putCount_eq (not_lt.mp columnCount) (by decide),
    bind_eq_ok.mpr ⟨described, second, bind_eq_ok.mpr ⟨_, putCount_eq (not_lt.mp rowCount) (by decide),
      bind_eq_ok.mpr ⟨filled, third, rfl⟩⟩⟩⟩⟩⟩

end Format

end Snapshot

end Neuralbase.Replicated
