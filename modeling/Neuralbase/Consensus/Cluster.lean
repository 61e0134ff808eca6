import Neuralbase.Consensus.Boot

namespace Neuralbase.Consensus

/-! A cluster of Raft nodes and its runs.

`exec` performs one action of one node: it starts the node from its store, feeds
it one input, or applies one committed entry.  A delivered message is any
message at all; a run restricts this to messages that were sent, in any order
and any number of times, which covers loss, delay, reordering and duplication. -/

def Store.perform (store : Store) : Effect → Store
  | .save state snapshotData => store.save state snapshotData
  | .stageSnapshot snapshot => store.stageSnapshot snapshot
  | .clearStagedSnapshot => store.clearStagedSnapshot
  | _ => store

structure Cluster where
  /-- The running nodes. -/
  node : NodeId → Option RaftNode
  store : NodeId → Store
  /-- The state machines' durable apply cursors. -/
  cursor : NodeId → Nat
  /-- Every effect so far, with the node that caused it. -/
  history : List (NodeId × Effect)
  /-- The client commands submitted so far. -/
  commands : List (ClientId × Bytes)

namespace Cluster

def initial : Cluster where
  node := fun _ => none
  store := fun _ => .empty
  cursor := fun _ => 0
  history := []
  commands := []

def perform (c : Cluster) (i : NodeId) (effect : Effect) : Cluster :=
  { c with
    store := Function.update c.store i ((c.store i).perform effect)
    cursor := Function.update c.cursor i (advanceCursor (c.cursor i) effect)
    history := c.history ++ [(i, effect)] }

def performAll (c : Cluster) (i : NodeId) (effects : List Effect) : Cluster :=
  effects.foldl (fun c effect => c.perform i effect) c

def setNode (c : Cluster) (i : NodeId) (node : Option RaftNode) : Cluster :=
  { c with node := Function.update c.node i node }

/-- Everything `n` did since its event began has happened. -/
def flush (c : Cluster) (i : NodeId) (n : RaftNode) : Cluster :=
  (c.performAll i n.io).setNode i (some { n with io := [] })

def Sent (c : Cluster) (sender peer : NodeId) (message : RaftMessage) : Prop :=
  (sender, .send peer message) ∈ c.history

end Cluster

inductive Work where
  | event (input : Input)
  | apply (outcome : ApplyOutcome)
  | boot (config : BootConfig)
deriving DecidableEq

structure Action where
  node : NodeId
  work : Work
  env : Environment
  /-- The process dies after this many effects of the action. -/
  crashAfter : Option Nat

namespace Cluster

def conclude (c : Cluster) (i : NodeId) (crashAfter : Option Nat) (result : Except Halt RaftNode) : Cluster :=
  match crashAfter, result with
  | some count, .ok n => (c.performAll i (n.io.take count)).setNode i none
  | some count, .error halt => (c.performAll i (halt.node.io.take count)).setNode i none
  | none, .ok n => c.flush i n
  | none, .error halt => (c.performAll i halt.node.io).setNode i none

/-- A command comes with a new reply channel: one that no command used, that the
node does not hold and that nobody has answered. -/
def freshChannel (c : Cluster) (n : RaftNode) (client : ClientId) : Bool :=
  (c.commands.all fun command => command.1 ≠ client) &&
    (n.pendingClients.entries.all fun waiter => waiter.2 ≠ client) &&
    c.history.all fun
      | (_, .reply answered _) => answered ≠ client
      | _ => true

def submit (c : Cluster) : Input → Cluster
  | .clientCommand client payload => { c with commands := (client, payload) :: c.commands }
  | _ => c

def canSubmit (c : Cluster) (n : RaftNode) : Input → Bool
  | .clientCommand client _ => c.freshChannel n client
  | _ => true

def exec (codec : Codec) (c : Cluster) (a : Action) : Option Cluster :=
  match a.work, c.node a.node with
  | .event input, some n =>
    if n.commitIndex ≤ n.lastApplied ∧ c.canSubmit n input then
      some ((c.submit input).conclude a.node a.crashAfter
        ((n.handleEvent codec a.env input).map fun n => n.settle a.env.transferExpired))
    else none
  | .apply outcome, some n =>
    if n.lastApplied < n.commitIndex then
      some (c.conclude a.node a.crashAfter
        ((n.applyNext codec outcome).map fun n => n.settle a.env.transferExpired))
    else none
  | .boot config, none =>
    match RaftNode.create a.node config.joining with
    | .error _ => none
    | .ok n =>
      some (c.conclude a.node a.crashAfter
        (n.load codec a.env config (c.store a.node) (c.cursor a.node)))
  | _, _ => none

end Cluster

/-- A run whose every action is `allowed` in the state it starts from: the state
reached, and all states of the run, latest first. -/
inductive Run (codec : Codec) (allowed : Cluster → Action → Prop) : Cluster → List Cluster → Prop
  | start : Run codec allowed .initial [.initial]
  | step {c next : Cluster} {past : List Cluster} {a : Action} :
      Run codec allowed c past → allowed c a → c.exec codec a = some next →
      Run codec allowed next (next :: past)

end Neuralbase.Consensus
