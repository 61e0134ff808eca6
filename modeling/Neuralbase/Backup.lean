import Neuralbase.Replicated.Snapshot
import Neuralbase.Consensus.Membership.Transitions

namespace Neuralbase

open Neuralbase.Consensus (ClusterMembership)
open Neuralbase.Replicated

/-! What recovery reads of an operator's backup (`backup.rs`). -/

structure BackupManifest where
  metadata : SnapshotMetadata
deriving DecidableEq

structure NeuralBaseBackup where
  manifest : BackupManifest
  membership : ClusterMembership
deriving DecidableEq

def backupStateMachineCompatVersion : UInt16 := 1

end Neuralbase
