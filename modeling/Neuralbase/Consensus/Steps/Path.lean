import Neuralbase.Consensus.Steps

namespace Neuralbase.Consensus

open Neuralbase.Library

/-! Every action of a node is a path of steps.  A path is followed from the start
of the action, when the node has no effect pending; `store` and `cursor` are what
stable storage and the state machine hold then. -/

def Effect.Permitted (store : Store) (cursor startCursor : Nat) : Effect → Prop
  | .readCursor index => index = cursor
  | .clearStagedSnapshot => cursor = startCursor
  | .restoreSnapshot index _ _ =>
    (∃ staged, store.stagedSnapshot = some staged ∧ staged.kind = .installation ∧
      staged.lastIncludedIndex = index) ∨
    ∃ ps data, store.active = some (ps, data) ∧ ps.snapshotIndex = index
  | _ => True

def Effect.Still (effect : Effect) : Prop := ∀ cursor, advanceCursor cursor effect = cursor

theorem advanceCursor_still {effects : List Effect} (still : ∀ effect ∈ effects, effect.Still)
    (cursor : Nat) : effects.foldl advanceCursor cursor = cursor := by
  induction effects with
  | nil => rfl
  | cons effect rest induction =>
    rw [List.foldl_cons, still effect (by simp)]
    exact induction fun other inside => still other (by simp [inside])

inductive Path (ctx : Context) (store : Store) (cursor : Nat) : RaftNode → RaftNode → Prop
  | refl (n : RaftNode) : Path ctx store cursor n n
  | silent {n m next : RaftNode} : Path ctx store cursor n m → NodeStep ctx m none next →
      Path ctx store cursor n next
  | act {n m next : RaftNode} {effect : Effect} : Path ctx store cursor n m →
      NodeStep ctx m (some effect) next →
      effect.Permitted (m.io.foldl Store.perform store) (m.io.foldl advanceCursor cursor) cursor →
      Path ctx store cursor n (next.emit effect)

def Reaches (ctx : Context) (store : Store) (cursor : Nat) (n : RaftNode) :
    Except Halt RaftNode → Prop
  | .ok next => Path ctx store cursor n next
  | .error halt => ∃ last, Path ctx store cursor n last ∧ last.io = halt.node.io

theorem Reaches.bind {ctx : Context} {store : Store} {cursor : Nat} {n : RaftNode} {α : Type}
    {first : Except Halt α} {next : α → Except Halt RaftNode}
    (halts : ∀ halt, first = .error halt → Reaches ctx store cursor n (.error halt))
    (continues : ∀ value, first = .ok value → Reaches ctx store cursor n (next value)) :
    Reaches ctx store cursor n (first >>= next) := by
  cases first with
  | error halt => exact halts halt rfl
  | ok value => exact continues value rfl

namespace Path

variable {ctx : Context} {store : Store} {cursor : Nat} {n m next : RaftNode}

theorem trans (first : Path ctx store cursor n m) (second : Path ctx store cursor m next) :
    Path ctx store cursor n next := by
  induction second with
  | refl => exact first
  | silent _ step reached => exact reached.silent step
  | act _ step permitted reached => exact reached.act step permitted

theorem reaches {result : Except Halt RaftNode} (first : Path ctx store cursor n m)
    (rest : Reaches ctx store cursor m result) : Reaches ctx store cursor n result := by
  cases result with
  | ok next => exact first.trans rest
  | error halt =>
    obtain ⟨last, path, effects⟩ := rest
    exact ⟨last, first.trans path, effects⟩

theorem persist (path : Path ctx store cursor n m) (step : NodeStep ctx m next.saved next) :
    Path ctx store cursor n next.persist := by
  unfold RaftNode.saved at step
  unfold RaftNode.persist
  split at step
  · rename_i attached
    rw [if_pos attached]
    exact path.act step trivial
  · rename_i detached
    rw [if_neg detached]
    exact path.silent step

theorem sendEach {peers : Finset NodeId} {message : NodeId → RaftMessage} (steps : ∀ peer ∈ peers, ∀ io,
      NodeStep ctx { n with io } (some (.send peer (message peer))) { n with io }) :
    Path ctx store cursor n (n.sendEach peers message) := by
  have sends : ∀ (todo : List NodeId) (io : List Effect), (∀ peer ∈ todo, peer ∈ peers) →
      Path ctx store cursor { n with io }
        (todo.foldl (fun n peer => n.send peer (message peer)) { n with io }) := by
    intro todo
    induction todo with
    | nil => exact fun io _ => .refl _
    | cons peer rest induction =>
      intro io members
      have first : Path ctx store cursor { n with io }
          { n with io := io ++ [.send peer (message peer)] } :=
        (Path.refl _).act (steps peer (members peer (by simp)) io) trivial
      exact first.trans (induction _ fun other inside => members other (by simp [inside]))
  exact sends (ascending peers) n.io fun peer => mem_ascending.mp

end Path

namespace RaftNode

variable {ctx : Context} {store : Store} {cursor : Nat} {n : RaftNode}

section Waiters

variable (reason : String)

theorem path_failClient (index : Nat) : Path ctx store cursor n (n.failClient reason index) := by
  unfold failClient
  cases waiter : n.pendingClients.lookup index with
  | none => exact (Path.refl n).silent (.soft _ _ _ _ _ _ _ _)
  | some client =>
    exact ((Path.refl n).act (.failWaiter reason index client waiter) trivial).silent
      (.soft _ _ _ _ _ _ _ _)

def failure (waiters : AList fun _ : Nat => ClientId) (index : Nat) : List Effect :=
  (waiters.lookup index).toList.map fun client => .reply client (.error reason)

theorem failure_still (waiters : AList fun _ : Nat => ClientId) (index : Nat) :
    ∀ effect ∈ failure reason waiters index, effect.Still := by
  intro effect inside
  obtain ⟨client, _, rfl⟩ := List.mem_map.mp inside
  exact fun _ => rfl

theorem failClient_eq (index : Nat) : n.failClient reason index =
    { n with
      pendingClients := n.pendingClients.erase index
      pendingMembershipRpcs := n.pendingMembershipRpcs.erase index
      io := n.io ++ failure reason n.pendingClients index } := by
  unfold failClient failure
  cases waiter : n.pendingClients.lookup index with
  | none =>
    have absent : n.pendingClients.erase index = n.pendingClients :=
      AList.ext (List.kerase_of_notMem_keys (AList.lookup_eq_none.mp waiter))
    simp [absent]
  | some client => rfl

theorem path_failClients (todo : List Nat) :
    Path ctx store cursor n (todo.foldl (fun n index => n.failClient reason index) n) := by
  induction todo generalizing n with
  | nil => exact .refl n
  | cons index rest induction => exact (path_failClient reason index).trans induction

theorem failClients_eq (todo : List Nat) : ∃ pending rpcs replies,
    todo.foldl (fun n index => n.failClient reason index) n =
      { n with
        pendingClients := pending
        pendingMembershipRpcs := rpcs
        io := n.io ++ replies } ∧
    (∀ effect ∈ replies, effect.Still) ∧
    ∀ index ∈ pending, index ∈ n.pendingClients ∧ index ∉ todo := by
  induction todo generalizing n with
  | nil => exact ⟨n.pendingClients, n.pendingMembershipRpcs, [], by simp, by simp, by simp⟩
  | cons index rest induction =>
    obtain ⟨pending, rpcs, others, result, othersStill, remaining⟩ :=
      induction (n := n.failClient reason index)
    rw [failClient_eq] at result remaining
    refine ⟨pending, rpcs, failure reason n.pendingClients index ++ others, ?_, ?_, ?_⟩
    · rw [List.foldl_cons, failClient_eq, result, List.append_assoc]
    · intro effect inside
      exact (List.mem_append.mp inside).elim (failure_still _ _ _ effect) (othersStill effect)
    · intro other inside
      obtain ⟨kept, fresh⟩ := remaining other inside
      obtain ⟨different, member⟩ := AList.mem_erase.mp kept
      exact ⟨member, by simp [different, fresh]⟩

theorem path_failAllClients : Path ctx store cursor n (n.failAllClients reason) :=
  (path_failClients reason _).silent (.soft _ _ _ _ _ _ _ _)

theorem reaches_stop : Reaches ctx store cursor n (.error (n.stop reason)) :=
  ⟨n.failAllClients reason, path_failAllClients reason, rfl⟩

/-- Failing the waiters above `commitIndex` leaves none there. -/
theorem failUncommittedClients_eq : ∃ pending rpcs replies, n.failUncommittedClients reason =
    { n with
      pendingClients := pending
      pendingMembershipRpcs := rpcs
      io := n.io ++ replies } ∧
    (∀ effect ∈ replies, effect.Still) ∧ ∀ index ∈ pending, index ≤ n.commitIndex := by
  obtain ⟨pending, rpcs, replies, result, still, remaining⟩ := failClients_eq (n := n) reason
    (n.pendingClients.keys.filter fun index => index > n.commitIndex)
  refine ⟨pending, rpcs, replies, result, still, fun index inside => ?_⟩
  obtain ⟨member, notFailed⟩ := remaining index inside
  by_contra above
  exact notFailed (List.mem_filter.mpr ⟨AList.mem_keys.mpr member, by simpa using above⟩)

end Waiters

section StepDown

variable {term : Nat}

/-- The node after `become_follower`. -/
theorem becomeFollower_eq (n : RaftNode) (term : Nat) : ∃ pending rpcs effects, n.becomeFollower term =
    { n.demoted term with
      pendingClients := pending
      pendingMembershipRpcs := rpcs
      io := n.io ++ effects } ∧ ∀ effect ∈ effects, effect.Still := by
  obtain ⟨pending, rpcs, replies, failed, still, _⟩ := failUncommittedClients_eq (n := n)
    "leadership lost before command reached required quorum commit"
  unfold becomeFollower persist
  rw [failed]
  split
  · refine ⟨pending, rpcs, replies ++ [.save (n.demoted term).ps n.snapshotData], ?_, ?_⟩
    · simp [emit, demoted]
    · intro effect inside
      rcases List.mem_append.mp inside with reply | save
      · exact still effect reply
      · rw [List.mem_singleton.mp save]
        exact fun _ => rfl
  · exact ⟨pending, rpcs, replies, rfl, still⟩

variable {sender : NodeId} {message : RaftMessage}

theorem path_becomeFollower (begun : ctx.origin = n) (received : ctx.Receives sender message)
    (rises : n.ps.currentTerm ≤ term) (drained : n.commitIndex ≤ n.lastApplied) :
    Path ctx store cursor n (n.becomeFollower term) := by
  obtain ⟨pending, rpcs, replies, failed, _, below⟩ := failUncommittedClients_eq (n := n)
    "leadership lost before command reached required quorum commit"
  have path : Path ctx store cursor n (n.failUncommittedClients
      "leadership lost before command reached required quorum commit") := path_failClients _ _
  refine path.persist (.stepDown term sender message received ?_ ?_ ?_ ?_)
  · rw [failed]
    exact rises
  · rw [failed]
    exact below
  · rw [failed]
    exact drained
  · rw [failed, begun]

theorem demoted_since : (n.demoted term).Since n := by
  unfold Since demoted core
  split <;> rfl

theorem becomeFollower_since : (n.becomeFollower term).Since n := by
  obtain ⟨pending, rpcs, effects, result, _⟩ := becomeFollower_eq n term
  rw [result]
  exact demoted_since (n := n)

theorem becomeFollower_role : (n.becomeFollower term).role = .follower := by
  obtain ⟨pending, rpcs, effects, result, _⟩ := becomeFollower_eq n term
  rw [result, demoted]

theorem becomeFollower_currentTerm (rises : n.ps.currentTerm ≤ term) :
    (n.becomeFollower term).ps.currentTerm = term := by
  obtain ⟨pending, rpcs, effects, result, _⟩ := becomeFollower_eq n term
  simp only [result, demoted]
  split
  · rfl
  · omega

variable {leaderId : NodeId}

theorem path_stepDownFor (begun : ctx.origin = n) (received : ctx.Receives sender message)
    (rises : n.ps.currentTerm ≤ term) (drained : n.commitIndex ≤ n.lastApplied) :
    Path ctx store cursor n (n.stepDownFor term leaderId) := by
  unfold stepDownFor
  split
  · exact path_becomeFollower begun received rises drained
  · exact .refl n

theorem stepDownFor_since : (n.stepDownFor term leaderId).Since n := by
  unfold stepDownFor
  split
  · exact becomeFollower_since
  · exact .refl

theorem stepDownFor_still (term : Nat) (leaderId : NodeId) (cursor : Nat) (idle : n.io = []) :
    (n.stepDownFor term leaderId).io.foldl advanceCursor cursor = cursor := by
  unfold stepDownFor
  split
  · obtain ⟨pending, rpcs, effects, result, still⟩ := becomeFollower_eq n term
    rw [result, idle]
    exact advanceCursor_still still cursor
  · rw [idle]
    rfl

theorem stepDownFor_currentTerm (leaderId : NodeId) (rises : n.ps.currentTerm ≤ term) :
    (n.stepDownFor term leaderId).ps.currentTerm = term := by
  unfold stepDownFor
  split
  · exact becomeFollower_currentTerm rises
  · omega

theorem stepDownFor_role (leaderId : NodeId) (rises : n.ps.currentTerm ≤ term) :
    (n.stepDownFor term leaderId).role = .follower ∨ leaderId = (n.stepDownFor term leaderId).id := by
  unfold stepDownFor
  split
  · exact .inl becomeFollower_role
  · rename_i stays
    push Not at stays
    by_cases following : n.role = .follower
    · exact .inl following
    · exact .inr (stays.2 (by omega) following)

end StepDown

end RaftNode

end Neuralbase.Consensus
