import Mathlib

namespace Neuralbase.Consensus

/-! Raft RPC message types (`consensus/rpc.rs`).

Terms and log indexes are `u64` in the source and natural numbers here: every
one of them is counted up by ones from zero, and the arithmetic the handlers do
on values received from a peer saturates. -/

abbrev NodeId := String

abbrev Bytes := List UInt8

structure LogEntry where
  term : Nat
  index : Nat
  command : Bytes
deriving DecidableEq

structure RequestVoteArgs where
  term : Nat
  candidateId : NodeId
  lastLogIndex : Nat
  lastLogTerm : Nat
deriving DecidableEq

structure RequestVoteReply where
  term : Nat
  voteGranted : Bool
deriving DecidableEq

/-- An empty `entries` list is a heartbeat. -/
structure AppendEntriesArgs where
  term : Nat
  leaderId : NodeId
  prevLogIndex : Nat
  prevLogTerm : Nat
  entries : List LogEntry
  leaderCommit : Nat
deriving DecidableEq

structure AppendEntriesReply where
  term : Nat
  success : Bool
  matchIndex : Nat
deriving DecidableEq

structure InstallSnapshotArgs where
  term : Nat
  leaderId : NodeId
  lastIncludedIndex : Nat
  lastIncludedTerm : Nat
  data : Bytes
  done : Bool
deriving DecidableEq

structure InstallSnapshotReply where
  term : Nat
  success : Bool
  lastIncludedIndex : Nat
deriving DecidableEq

inductive MembershipChange where
  | addNode (id : NodeId)
  | addLearner (id : NodeId)
  | promoteLearner (id : NodeId)
  | removeNode (id : NodeId)
  | finalizeJoint
deriving DecidableEq

inductive RaftMessage where
  | requestVote (args : RequestVoteArgs)
  | requestVoteReply (reply : RequestVoteReply)
  | appendEntries (args : AppendEntriesArgs)
  | appendEntriesReply (reply : AppendEntriesReply)
  | installSnapshot (args : InstallSnapshotArgs)
  | installSnapshotReply (reply : InstallSnapshotReply)
  | membershipChangeCmd (change : MembershipChange)
  | membershipChangeCmdReply (success : Bool) (error : Option String)
  | leaderTransfer (target : NodeId)
  | leaderTransferReply (success : Bool) (error : Option String)
  | timeoutNow (term : Nat)
deriving DecidableEq

end Neuralbase.Consensus
