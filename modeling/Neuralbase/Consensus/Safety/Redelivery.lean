import Neuralbase.Consensus.Safety.LogShape
import Neuralbase.Library.Machine

namespace Neuralbase.Consensus

open Neuralbase.Library

/-! AppendEntries of one leader, delivered to a follower of its term in any order and any
number of times.  The follower truncates before it compares, so a message that ends below what
is stored already takes entries away. -/

/-- A state of the leader while it builds `log` in its term. -/
structure RaftNode.Builds (log : Nat → LogEntry) (term : Nat) (n : RaftNode) : Prop where
  shape : n.Shape
  term : n.ps.currentTerm = term
  entries : ∀ index entry, n.ps.snapshotIndex < index → n.ps.entryAt index = some entry → entry = log index
  boundary : 0 < n.ps.snapshotIndex → n.ps.snapshotTerm = (log n.ps.snapshotIndex).term
  committed : n.commitIndex ≤ n.ps.lastLogIndex

/-- The leader of `term` has sent this message while it built `log`. -/
def SentWhile (log : Nat → LogEntry) (leaderId : NodeId) (term : Nat) (args : AppendEntriesArgs) : Prop :=
  ∃ n peer, n.id = leaderId ∧ RaftNode.Builds log term n ∧ n.heartbeatFor peer = .appendEntries args

/-- What such a message says about the leader's log, if its previous entry is known there. -/
structure AppendEntriesArgs.PartOf (log : Nat → LogEntry) (args : AppendEntriesArgs) : Prop where
  previous : 0 < args.prevLogIndex → args.prevLogTerm = (log args.prevLogIndex).term
  entries : ∀ position entry, args.entries[position]? = some entry →
    entry = log (args.prevLogIndex + 1 + position)
  committed : args.leaderCommit ≤ args.prevLogIndex + args.entries.length

/-- An accepted message has a previous entry that its leader knew, starts at or above the
follower's snapshot boundary, and ends at or above every stored entry that the leader has too. -/
def Spans (log : Nat → LogEntry) (n : RaftNode) (args : AppendEntriesArgs) : Prop :=
  n.AcceptsAppend args → (0 < args.prevLogIndex → 0 < args.prevLogTerm) ∧
    (args.entries ≠ [] → n.ps.snapshotIndex ≤ args.prevLogIndex ∧
      ∀ index ≤ n.ps.lastLogIndex, args.prevLogIndex + args.entries.length < index →
        n.ps.entryAt index ≠ some (log index))

instance (log : Nat → LogEntry) (n : RaftNode) (args : AppendEntriesArgs) : Decidable (Spans log n args) :=
  inferInstanceAs (Decidable (_ → (_ → _) ∧ (_ → _ ∧ ∀ index ≤ n.ps.lastLogIndex, _)))

namespace RaftNode

def receive (codec : Codec) (n : RaftNode) (args : AppendEntriesArgs) : Option RaftNode :=
  (n.onAppendEntries codec args).toOption.map Prod.fst

def replica (n : RaftNode) : RaftNode :=
  { n with
    io := []
    role := .follower
    leaderId := none
    leader := none
    votesReceived := ∅
    successfulAppendSeen := true
    pendingClients := ∅
    pendingMembershipRpcs := ∅ }

def stores (codec : Codec) (n : RaftNode) (args : AppendEntriesArgs) : Option RaftNode :=
  if n.AcceptsAppend args then
    if args.entries = [] then some (n.followCommit args.leaderCommit)
    else ((n.accepted args).recomputeEffectiveMembership codec).toOption.map fun next =>
      next.replica.followCommit args.leaderCommit
  else some n

end RaftNode

section Sending

variable {log : Nat → LogEntry} {leaderId : NodeId} {term : Nat} {args : AppendEntriesArgs}

theorem SentWhile.addressed (sent : SentWhile log leaderId term args) :
    args.leaderId = leaderId ∧ args.term = term := by
  obtain ⟨n, peer, rfl, builds, beat⟩ := sent
  obtain ⟨following, _, rfl⟩ := heartbeatFor_appendEntries beat
  exact ⟨rfl, builds.term⟩

theorem SentWhile.partOf (sent : SentWhile log leaderId term args)
    (known : 0 < args.prevLogIndex → 0 < args.prevLogTerm) : args.PartOf log := by
  obtain ⟨n, peer, rfl, builds, beat⟩ := sent
  obtain ⟨following, held, rfl⟩ := heartbeatFor_appendEntries beat
  have represents := builds.shape.ps
  have last := represents.lastLogIndex
  have above : n.ps.snapshotIndex ≤ following - 1 := by
    rcases held with empty | above
    · rw [builds.shape.data.mpr empty]
      exact Nat.zero_le _
    · omega
  have entries : n.ps.entriesFrom following = n.ps.log.drop (following - 1 - n.ps.snapshotIndex + 1) := by
    rw [PersistentState.entriesFrom_eq_drop]
    congr 1
    rcases held with empty | above
    · rw [builds.shape.data.mpr empty]
      split <;> omega
    · split <;> omega
  refine ⟨fun positive => ?_, fun position entry found => ?_, ?_⟩
  · obtain ⟨_, entry, found, same⟩ := PersistentState.termAt_pos (known positive)
    show n.ps.termAt (following - 1) = _
    rw [← same]
    by_cases boundary : following - 1 = n.ps.snapshotIndex
    · obtain ⟨rest, split⟩ := represents.log_eq
      rw [boundary, Nat.sub_self, split, List.getElem?_cons_zero] at found
      cases found
      rw [boundary]
      exact builds.boundary (boundary ▸ positive)
    · rw [builds.entries (following - 1) entry (by omega) ((PersistentState.entryAt_eq above).trans found)]
  · have found : (n.ps.entriesFrom following)[position]? = some entry := found
    rw [entries, List.getElem?_drop] at found
    refine builds.entries (following - 1 + 1 + position) entry (by omega) ?_
    rw [PersistentState.entryAt_eq (by omega), ← found]
    congr 1
    omega
  · show n.commitIndex ≤ following - 1 + (n.ps.entriesFrom following).length
    have committed := builds.committed
    rw [entries, List.length_drop]
    omega

end Sending

namespace RaftNode

section Receiving

variable {codec : Codec} {args : AppendEntriesArgs} {n next : RaftNode}

theorem followCommit_replica (leaderCommit : Nat) :
    (n.followCommit leaderCommit).replica = n.replica.followCommit leaderCommit := by
  by_cases behind : leaderCommit > n.commitIndex
  · rw [followCommit, followCommit, if_pos behind, if_pos (show leaderCommit > n.replica.commitIndex from behind)]
    rfl
  · rw [followCommit, followCommit, if_neg behind, if_neg (show ¬leaderCommit > n.replica.commitIndex from behind)]

@[simp] theorem followCommit_ps (leaderCommit : Nat) : (n.followCommit leaderCommit).ps = n.ps := by
  unfold followCommit
  split <;> rfl

@[simp] theorem followCommit_effectiveMembership (leaderCommit : Nat) :
    (n.followCommit leaderCommit).effectiveMembership = n.effectiveMembership := by
  unfold followCommit
  split <;> rfl

@[simp] theorem followCommit_bootstrapMembership (leaderCommit : Nat) :
    (n.followCommit leaderCommit).bootstrapMembership = n.bootstrapMembership := by
  unfold followCommit
  split <;> rfl

theorem persist_replica : n.persist.replica = n.replica := by
  obtain ⟨effects, persisted⟩ := persist_eq (n := n)
  rw [persisted]
  rfl

theorem stepDownFor_replica {leaderId : NodeId} : (n.stepDownFor n.ps.currentTerm leaderId).replica = n.replica := by
  unfold stepDownFor
  split
  · obtain ⟨pending, rpcs, effects, result, _⟩ := becomeFollower_eq n n.ps.currentTerm
    rw [result, demoted, if_neg (Nat.lt_irrefl _)]
    rfl
  · rfl

theorem recompute_replica : (n.recomputeEffectiveMembership codec).toOption.map replica =
    (n.replica.recomputeEffectiveMembership codec).toOption.map replica := by
  have committed : n.replica.committedMembership = n.committedMembership := rfl
  have log : n.replica.ps = n.ps := rfl
  simp only [recomputeEffectiveMembership, committed, log]
  cases foldMembership codec n.committedMembership.configIndex n.committedMembership n.ps.log with
  | error error => rfl
  | ok membership =>
    cases valid : membership.validate with
    | error error => simp [bind, Except.bind, valid, Except.toOption]
    | ok _ => simp [bind, Except.bind, valid, Except.toOption, pure, Except.pure, syncLeaderTracking,
        replica]

theorem accepted_recompute {m : RaftNode} (same : m.replica = n.replica) :
    ((m.accepted args).recomputeEffectiveMembership codec).toOption.map replica =
      ((n.replica.accepted args).recomputeEffectiveMembership codec).toOption.map replica := by
  have accepted : (m.accepted args).replica = (n.replica.accepted args).replica := by
    show (m.replica.accepted args).replica = _
    rw [same]
  rw [recompute_replica, accepted, ← recompute_replica]

/-- Handling a message of the node's term acts on the part that `stores` acts on. -/
theorem receive_replica (current : args.term = n.ps.currentTerm) :
    (n.receive codec args).map replica = n.replica.stores codec args := by
  have accepts : n.replica.AcceptsAppend args ↔ n.AcceptsAppend args := Iff.rfl
  unfold receive onAppendEntries stores
  simp only [accepts]
  split
  · rename_i refused
    rw [if_neg]
    · rfl
    · rintro ⟨admitted, kept, _⟩
      simp [admitted, kept] at refused
  rename_i admitted
  rw [if_neg (by omega), current]
  generalize stepped : n.stepDownFor n.ps.currentTerm args.leaderId = m
  have same : m.replica = n.replica := stepped ▸ stepDownFor_replica
  have state : m.replica.ps = n.replica.ps := by rw [same]
  have state : m.ps = n.ps := state
  have checked : prevLogMismatch { m with leaderId := some args.leaderId } args =
      n.prevLogMismatch args := by
    simp only [prevLogMismatch, state]
  rw [checked]
  have admits : n.AcceptsAppend args ↔ n.prevLogMismatch args = false := by
    simp only [Bool.or_eq_true, not_or, Bool.not_eq_true', Bool.not_eq_true, Bool.not_eq_false] at admitted
    exact ⟨fun accepts => accepts.2.2.2, fun agrees => ⟨admitted.1, admitted.2, current.ge, agrees⟩⟩
  cases mismatch : n.prevLogMismatch args with
  | true =>
    rw [if_pos rfl, if_neg (by simp [admits, mismatch])]
    exact congrArg some same
  | false =>
    rw [if_neg Bool.false_ne_true, if_pos (admits.mpr mismatch)]
    split
    · exact congrArg some ((followCommit_replica _).trans (congrArg (followCommit · _) same))
    · refine Eq.trans ?_ (Option.map_map (followCommit · args.leaderCommit) replica _)
      rw [← accepted_recompute
        (m := { m with leaderId := some args.leaderId, successfulAppendSeen := true }) same]
      generalize recomputeEffectiveMembership codec _ = recomputed
      cases recomputed with
      | error error => rfl
      | ok next => exact congrArg some ((followCommit_replica _).trans
          (congrArg (followCommit · _) persist_replica))

theorem receive_cases (current : args.term = n.ps.currentTerm)
    (received : n.receive codec args = some next) :
    (¬n.AcceptsAppend args ∧ next.replica = n.replica) ∨
    (n.AcceptsAppend args ∧ args.entries = [] ∧
      next.replica = n.replica.followCommit args.leaderCommit) ∨
    (n.AcceptsAppend args ∧ args.entries ≠ [] ∧ ∃ membership,
      foldMembership codec n.committedMembership.configIndex n.committedMembership
        (n.accepted args).ps.log = .ok membership ∧ membership.Valid ∧
      next.replica = followCommit
        { n.replica.accepted args with effectiveMembership := membership } args.leaderCommit) := by
  have stored : n.replica.stores codec args = some next.replica := by
    rw [← receive_replica current, received]
    rfl
  unfold stores at stored
  split at stored
  · rename_i accepts
    split at stored
    · rename_i empty
      exact .inr (.inl ⟨accepts, empty, (Option.some.inj stored).symm⟩)
    · rename_i entries
      obtain ⟨recomputed, found, result⟩ := Option.map_eq_some_iff.mp stored
      cases folded : (n.replica.accepted args).recomputeEffectiveMembership codec with
      | error error =>
        rw [folded] at found
        cases found
      | ok refolded =>
        rw [folded] at found
        cases found
        obtain ⟨membership, leader, fold, valid, rfl⟩ := recompute_eq folded
        exact .inr (.inr ⟨accepts, entries, membership, fold, valid, result.symm⟩)
  · rename_i refuses
    exact .inl ⟨refuses, (Option.some.inj stored).symm⟩

end Receiving

theorem receive_currentTerm {codec : Codec} {args : AppendEntriesArgs} {n next : RaftNode}
    (current : args.term = n.ps.currentTerm) (received : n.receive codec args = some next) :
    next.ps.currentTerm = n.ps.currentTerm := by
  show next.replica.ps.currentTerm = _
  rcases receive_cases current received with
    ⟨_, same⟩ | ⟨_, _, same⟩ | ⟨_, _, membership, _, _, same⟩
  · rw [same]
    rfl
  · rw [same, followCommit_ps]
    rfl
  · rw [same, followCommit_ps]
    rfl

/-- A run of deliveries, seen on the part that `stores` acts on. -/
theorem runs_replica {codec : Codec} {n : RaftNode} {messages : List AppendEntriesArgs}
    (current : ∀ args ∈ messages, args.term = n.ps.currentTerm) :
    (runs (receive codec) n messages).map replica = runs (stores codec) n.replica messages := by
  refine runs_map (fun m => m.ps.currentTerm = n.ps.currentTerm) rfl fun m same args inside => ?_
  have current : args.term = m.ps.currentTerm := (current args inside).trans same.symm
  exact ⟨receive_replica current, fun next received => (receive_currentTerm current received).trans same⟩

section Delivery

variable {codec : Codec} {log : Nat → LogEntry} {leaderId : NodeId} {args : AppendEntriesArgs}
  {n next : RaftNode}

theorem followCommit_commitIndex {leaderCommit : Nat} (inside : leaderCommit ≤ n.ps.lastLogIndex) :
    (n.followCommit leaderCommit).commitIndex = max n.commitIndex leaderCommit := by
  unfold followCommit
  split
  · simp only
    omega
  · omega

theorem AcceptsAppend.inside (accepts : n.AcceptsAppend args)
    (known : 0 < args.prevLogIndex → 0 < args.prevLogTerm) : args.prevLogIndex ≤ n.ps.lastLogIndex := by
  by_cases positive : 0 < args.prevLogIndex
  · have same : n.ps.termAt args.prevLogIndex = args.prevLogTerm := by
      simpa [prevLogMismatch, positive] using accepts.2.2.2
    obtain ⟨above, entry, found, _⟩ := PersistentState.termAt_pos (same ▸ known positive)
    have below := (List.getElem?_eq_some_iff.mp found).1
    unfold PersistentState.lastLogIndex
    omega
  · omega

/-- What a delivery within the condition does to the log and to `commit_index`. -/
inductive Delivers (codec : Codec) (log : Nat → LogEntry) (args : AppendEntriesArgs) (n next : RaftNode) :
    Prop where
  | refused : ¬n.AcceptsAppend args → next.ps = n.ps → next.commitIndex = n.commitIndex →
      next.effectiveMembership = n.effectiveMembership → Delivers codec log args n next
  | heartbeat : n.AcceptsAppend args → args.entries = [] → next.ps = n.ps →
      next.commitIndex = max n.commitIndex args.leaderCommit →
      next.effectiveMembership = n.effectiveMembership → Delivers codec log args n next
  | appended : n.AcceptsAppend args → args.entries ≠ [] → args.PartOf log →
      next.ps = n.ps.truncateAndAppend args.prevLogIndex args.entries →
      n.ps.snapshotIndex ≤ args.prevLogIndex → args.prevLogIndex ≤ n.ps.lastLogIndex →
      (∀ index ≤ n.ps.lastLogIndex, args.prevLogIndex + args.entries.length < index →
        n.ps.entryAt index ≠ some (log index)) →
      next.commitIndex = max n.commitIndex args.leaderCommit →
      foldMembership codec n.committedMembership.configIndex n.committedMembership next.ps.log =
        .ok next.effectiveMembership → next.effectiveMembership.Valid → Delivers codec log args n next

theorem receive_delivers (sent : SentWhile log leaderId n.ps.currentTerm args) (stored : n.ps.log ≠ [])
    (spans : Spans log n args) (received : n.receive codec args = some next) :
    next.bootstrapMembership = n.bootstrapMembership ∧ Delivers codec log args n next := by
  have parts {m : RaftNode} (same : next.replica = m) : next.ps = m.ps ∧ next.commitIndex = m.commitIndex ∧
      next.effectiveMembership = m.effectiveMembership ∧
      next.bootstrapMembership = m.bootstrapMembership := by
    subst same
    exact ⟨rfl, rfl, rfl, rfl⟩
  rcases receive_cases sent.addressed.2 received with
    ⟨refuses, same⟩ | ⟨accepts, empty, same⟩ | ⟨accepts, entries, membership, folded, valid, same⟩
  · obtain ⟨state, commit, effective, bootstrap⟩ := parts same
    exact ⟨bootstrap, .refused refuses state commit effective⟩
  · obtain ⟨state, commit, effective, bootstrap⟩ := parts same
    obtain ⟨known, _⟩ := spans accepts
    have inside := accepts.inside known
    have committed := (sent.partOf known).committed
    rw [followCommit_bootstrapMembership] at bootstrap
    refine ⟨bootstrap, .heartbeat accepts empty ?_ ?_ ?_⟩
    · rw [state, followCommit_ps]
      rfl
    · rw [commit]
      refine followCommit_commitIndex ?_
      rw [empty, List.length_nil] at committed
      exact Nat.le_trans committed inside
    · rw [effective, followCommit_effectiveMembership]
      rfl
  · obtain ⟨state, commit, effective, bootstrap⟩ := parts same
    obtain ⟨known, fits⟩ := spans accepts
    obtain ⟨above, last⟩ := fits entries
    have inside := accepts.inside known
    have partOf := sent.partOf known
    rw [followCommit_bootstrapMembership] at bootstrap
    rw [followCommit_ps] at state
    rw [followCommit_effectiveMembership] at effective
    refine ⟨bootstrap, .appended accepts entries partOf state above inside last ?_ ?_ ?_⟩
    · rw [commit]
      refine followCommit_commitIndex ?_
      show _ ≤ (n.ps.truncateAndAppend args.prevLogIndex args.entries).lastLogIndex
      have committed := partOf.committed
      rw [PersistentState.lastLogIndex_truncateAndAppend stored]
      omega
    · rw [state, effective]
      exact folded
    · rw [effective]
      exact valid

theorem Delivers.currentTerm (delivers : Delivers codec log args n next) : next.ps.currentTerm = n.ps.currentTerm := by
  cases delivers with
  | refused _ state => rw [state]
  | heartbeat _ _ state => rw [state]
  | appended _ _ _ state => rw [state, PersistentState.truncateAndAppend]

theorem Delivers.stored (delivers : Delivers codec log args n next) (stored : n.ps.log ≠ []) : next.ps.log ≠ [] := by
  cases delivers with
  | refused _ state => rwa [state]
  | heartbeat _ _ state => rwa [state]
  | appended _ entries _ state =>
    rw [state]
    exact List.append_ne_nil_of_right_ne_nil _ entries

theorem Delivers.commitIndex (delivers : Delivers codec log args n next) : n.commitIndex ≤ next.commitIndex := by
  cases delivers with
  | refused _ _ commit => exact commit.ge
  | heartbeat _ _ _ commit => exact commit.ge.trans' (le_max_left _ _)
  | appended _ _ _ _ _ _ _ commit => exact commit.ge.trans' (le_max_left _ _)

theorem Delivers.entryAt (delivers : Delivers codec log args n next) (stored : n.ps.log ≠ []) {index : Nat}
    {entry : LogEntry} (found : next.ps.entryAt index = some entry) :
    n.ps.entryAt index = some entry ∨ entry = log index := by
  cases delivers with
  | refused _ state => exact .inl (state ▸ found)
  | heartbeat _ _ state => exact .inl (state ▸ found)
  | appended _ _ partOf state above inside =>
    have positive := List.length_pos_iff.mpr stored
    unfold PersistentState.lastLogIndex at inside
    rw [state, PersistentState.entryAt_truncateAndAppend above (by omega)] at found
    split at found
    · exact .inl found
    · rename_i beyond
      have same := partOf.entries _ _ found
      rw [show args.prevLogIndex + 1 + (index - (args.prevLogIndex + 1)) = index by omega] at same
      exact .inr same

theorem Delivers.keeps (delivers : Delivers codec log args n next) (stored : n.ps.log ≠ []) {index : Nat}
    (found : n.ps.entryAt index = some (log index)) : next.ps.entryAt index = some (log index) := by
  cases delivers with
  | refused _ state => rw [state, found]
  | heartbeat _ _ state => rw [state, found]
  | appended _ _ partOf state above inside last =>
    have positive := List.length_pos_iff.mpr stored
    have bounds := PersistentState.entryAt_bounds found
    unfold PersistentState.lastLogIndex at inside last
    rw [state, PersistentState.entryAt_truncateAndAppend above (by omega)]
    split
    · exact found
    · rename_i beyond
      have covered : index ≤ args.prevLogIndex + args.entries.length :=
        Nat.le_of_not_lt fun beyond => last index (by omega) beyond found
      have replaced := List.getElem?_eq_getElem
        (show index - (args.prevLogIndex + 1) < args.entries.length by omega)
      rw [replaced, partOf.entries _ _ replaced]
      congr 2
      omega

/-- What an accepted message leaves in the log as long as nothing is taken away. -/
structure Replicates (codec : Codec) (log : Nat → LogEntry) (args : AppendEntriesArgs) (n : RaftNode) :
    Prop where
  present : ∀ index, args.prevLogIndex < index → index ≤ args.prevLogIndex + args.entries.length →
    n.ps.entryAt index = some (log index)
  agrees : ∀ index entry, args.prevLogIndex < index → n.ps.entryAt index = some entry → entry = log index
  folded : foldMembership codec n.committedMembership.configIndex n.committedMembership n.ps.log =
    .ok n.effectiveMembership
  valid : n.effectiveMembership.Valid

structure Processed (codec : Codec) (log : Nat → LogEntry) (args : AppendEntriesArgs) (n : RaftNode) :
    Prop where
  committed : args.leaderCommit ≤ n.commitIndex
  entries : args.entries ≠ [] → n.Replicates codec log args

theorem Delivers.committedMembership (delivers : Delivers codec log args n next)
    (bootstrap : next.bootstrapMembership = n.bootstrapMembership) :
    next.committedMembership = n.committedMembership := by
  have membership : next.ps.membership = n.ps.membership := by
    cases delivers with
    | refused _ state => rw [state]
    | heartbeat _ _ state => rw [state]
    | appended _ _ _ state => rw [state, PersistentState.truncateAndAppend]
  rw [RaftNode.committedMembership, RaftNode.committedMembership, membership, bootstrap]

theorem Delivers.processed (delivers : Delivers codec log args n next)
    (bootstrap : next.bootstrapMembership = n.bootstrapMembership) (stored : n.ps.log ≠ [])
    (accepts : n.AcceptsAppend args) : next.Processed codec log args := by
  have same := delivers.committedMembership bootstrap
  cases delivers with
  | refused refuses => exact absurd accepts refuses
  | heartbeat _ empty _ commit =>
    exact ⟨commit.ge.trans' (le_max_right _ _), fun entries => absurd empty entries⟩
  | appended _ _ partOf state above inside _ commit folded valid =>
    have positive := List.length_pos_iff.mpr stored
    unfold PersistentState.lastLogIndex at inside
    have found {index : Nat} (beyond : args.prevLogIndex < index) :
        next.ps.entryAt index = args.entries[index - (args.prevLogIndex + 1)]? := by
      rw [state, PersistentState.entryAt_truncateAndAppend above (by omega), if_neg (by omega)]
    have agrees {index : Nat} {entry : LogEntry} (beyond : args.prevLogIndex < index)
        (sent : args.entries[index - (args.prevLogIndex + 1)]? = some entry) : entry = log index := by
      rw [partOf.entries _ _ sent]
      congr 1
      omega
    refine ⟨commit.ge.trans' (le_max_right _ _), fun _ => ⟨?_, ?_, ?_, valid⟩⟩
    · intro index beyond covered
      have sent := List.getElem?_eq_getElem
        (show index - (args.prevLogIndex + 1) < args.entries.length by omega)
      rw [found beyond, sent, agrees beyond sent]
    · intro index entry beyond held
      exact agrees beyond ((found beyond).symm.trans held)
    · rw [same]
      exact folded

theorem Processed.delivers {earlier : AppendEntriesArgs} (processed : n.Processed codec log earlier)
    (delivers : Delivers codec log args n next)
    (bootstrap : next.bootstrapMembership = n.bootstrapMembership) (stored : n.ps.log ≠ []) :
    next.Processed codec log earlier := by
  have same := delivers.committedMembership bootstrap
  refine ⟨processed.committed.trans delivers.commitIndex, fun entries => ?_⟩
  obtain ⟨present, agrees, folded, valid⟩ := processed.entries entries
  have refolded : foldMembership codec next.committedMembership.configIndex next.committedMembership
      next.ps.log = .ok next.effectiveMembership ∧ next.effectiveMembership.Valid := by
    rw [same]
    cases delivers with
    | refused _ state _ effective =>
      rw [state, effective]
      exact ⟨folded, valid⟩
    | heartbeat _ _ state _ effective =>
      rw [state, effective]
      exact ⟨folded, valid⟩
    | appended _ _ _ _ _ _ _ _ folded valid => exact ⟨folded, valid⟩
  refine ⟨fun index beyond covered => delivers.keeps stored (present index beyond covered),
    fun index entry beyond held => ?_, refolded.1, refolded.2⟩
  rcases delivers.entryAt stored held with before | same
  · exact agrees index entry beyond before
  · exact same

theorem Replicates.truncateAndAppend (replicates : n.Replicates codec log args) (partOf : args.PartOf log)
    (stored : n.ps.log ≠ []) (above : n.ps.snapshotIndex ≤ args.prevLogIndex)
    (inside : args.prevLogIndex ≤ n.ps.lastLogIndex)
    (last : ∀ index ≤ n.ps.lastLogIndex, args.prevLogIndex + args.entries.length < index →
      n.ps.entryAt index ≠ some (log index)) : n.ps.truncateAndAppend args.prevLogIndex args.entries = n.ps := by
  have positive := List.length_pos_iff.mpr stored
  unfold PersistentState.lastLogIndex at inside last
  have log : (n.ps.truncateAndAppend args.prevLogIndex args.entries).log = n.ps.log := by
    refine PersistentState.log_ext rfl fun index => ?_
    rw [PersistentState.entryAt_truncateAndAppend above (by omega)]
    split
    · rfl
    rename_i beyond
    by_cases covered : index ≤ args.prevLogIndex + args.entries.length
    · have sent := List.getElem?_eq_getElem
        (show index - (args.prevLogIndex + 1) < args.entries.length by omega)
      rw [replicates.present index (by omega) covered, sent, partOf.entries _ _ sent]
      congr 2
      omega
    · rw [List.getElem?_eq_none (by omega)]
      cases held : n.ps.entryAt index with
      | none => rfl
      | some entry =>
        have bounds := PersistentState.entryAt_bounds held
        rw [replicates.agrees index entry (by omega) held] at held
        exact absurd held (last index (by omega) (by omega))
  rw [PersistentState.truncateAndAppend] at log ⊢
  simp only at log
  rw [log]

theorem Processed.redelivered (processed : n.Processed codec log args)
    (sent : SentWhile log leaderId n.ps.currentTerm args) (stored : n.ps.log ≠ [])
    (spans : Spans log n args) : n.replica.stores codec args = some n.replica := by
  have followed : n.replica.followCommit args.leaderCommit = n.replica :=
    if_neg (Nat.not_lt.mpr processed.committed)
  unfold stores
  split
  · rename_i accepts
    obtain ⟨known, fits⟩ := spans accepts
    split
    · rw [followed]
    · rename_i entries
      obtain ⟨above, last⟩ := fits entries
      have replicates := processed.entries entries
      have accepted : n.replica.accepted args = n.replica := by
        have spliced := replicates.truncateAndAppend (sent.partOf known) stored above
          (AcceptsAppend.inside (n := n) accepts known) last
        unfold RaftNode.accepted
        rw [show n.replica.ps = n.ps from rfl, spliced]
        rfl
      have recomputed : n.replica.recomputeEffectiveMembership codec = .ok n.replica.syncLeaderTracking := by
        simp only [recomputeEffectiveMembership, bind_eq_ok, pure_eq_ok,
          ClusterMembership.validate_eq_ok]
        exact ⟨_, replicates.folded, (), replicates.valid, rfl⟩
      rw [accepted, recomputed]
      exact congrArg some followed
  · rfl

theorem runs_follows {term : Nat} {messages : List AppendEntriesArgs} (current : n.ps.currentTerm = term)
    (stored : n.ps.log ≠ [])
    (steps : Throughout (receive codec) (fun n args => Spans log n args ∧ SentWhile log leaderId term args) n
      messages) (ran : Library.runs (receive codec) n messages = some next) :
    next.ps.currentTerm = term ∧ next.ps.log ≠ [] := by
  refine keeps (fun m => m.ps.currentTerm = term ∧ m.ps.log ≠ []) ran steps ⟨current, stored⟩ ?_
  rintro m args reached ⟨rfl, stored⟩ ⟨spans, sent⟩ received
  obtain ⟨_, delivers⟩ := receive_delivers sent stored spans received
  exact ⟨delivers.currentTerm, delivers.stored stored⟩

theorem Processed.runs {term : Nat} {earlier : AppendEntriesArgs} {messages : List AppendEntriesArgs}
    (processed : n.Processed codec log earlier) (current : n.ps.currentTerm = term)
    (stored : n.ps.log ≠ [])
    (steps : Throughout (receive codec) (fun n args => Spans log n args ∧ SentWhile log leaderId term args) n
      messages) (ran : Library.runs (receive codec) n messages = some next) :
    next.Processed codec log earlier := by
  refine (keeps (fun m => m.Processed codec log earlier ∧ m.ps.currentTerm = term ∧ m.ps.log ≠ []) ran steps
    ⟨processed, current, stored⟩ ?_).1
  rintro m args reached ⟨processed, rfl, stored⟩ ⟨spans, sent⟩ received
  obtain ⟨bootstrap, delivers⟩ := receive_delivers sent stored spans received
  exact ⟨processed.delivers delivers bootstrap stored, delivers.currentTerm, delivers.stored stored⟩

end Delivery

theorem redelivered_runs {codec : Codec} {log : Nat → LogEntry} {leaderId : NodeId} {n : RaftNode}
    {args : AppendEntriesArgs} {after : List AppendEntriesArgs} (processed : n.Processed codec log args)
    (sent : ∀ message ∈ args :: after, SentWhile log leaderId n.ps.currentTerm message)
    (stored : n.ps.log ≠ []) (spans : Spans log n args) :
    ((n.receive codec args).bind fun next => runs (receive codec) next after).map
        (fun final => (final.ps.log, final.commitIndex)) =
      (runs (receive codec) n after).map fun final => (final.ps.log, final.commitIndex) := by
  have current := (sent args List.mem_cons_self).addressed.2
  have same : (n.receive codec args).map replica = some n.replica :=
    (receive_replica current).trans (processed.redelivered (sent args List.mem_cons_self) stored spans)
  obtain ⟨next, received, same⟩ := Option.map_eq_some_iff.mp same
  have shown (m : RaftNode) (messages : List AppendEntriesArgs) :
      (runs (receive codec) m messages).map (fun final => (final.ps.log, final.commitIndex)) =
        ((runs (receive codec) m messages).map replica).map
          fun final => (final.ps.log, final.commitIndex) := by
    rw [Option.map_map]
    rfl
  have each : ∀ message ∈ after, message.term = n.ps.currentTerm := fun message inside =>
    (sent message (List.mem_cons_of_mem _ inside)).addressed.2
  have unchanged := receive_currentTerm current received
  rw [received, Option.bind_some, shown, shown, runs_replica each, runs_replica (unchanged ▸ each), same]

end RaftNode

section Statement

open RaftNode

/-- While no message ends below a stored entry that the leader has too, none of these entries is
lost, and an accepted message that comes again changes neither the log nor `commit_index`. -/
theorem appends_redelivered (codec : Codec) (log : Nat → LogEntry) (leaderId : NodeId) (n : RaftNode)
    (stored : n.ps.log ≠ []) :
    (∀ messages final, (∀ args ∈ messages, SentWhile log leaderId n.ps.currentTerm args) →
      Throughout (receive codec) (Spans log) n messages →
      runs (receive codec) n messages = some final →
      ∀ index, n.ps.entryAt index = some (log index) → final.ps.entryAt index = some (log index)) ∧
    ∀ before args middle after,
      (∀ sent ∈ before ++ args :: (middle ++ args :: after), SentWhile log leaderId n.ps.currentTerm sent) →
      Throughout (receive codec) (Spans log) n (before ++ args :: (middle ++ args :: after)) →
      (∀ reached, runs (receive codec) n before = some reached → reached.AcceptsAppend args) →
      (runs (receive codec) n (before ++ args :: (middle ++ args :: after))).map
          (fun final => (final.ps.log, final.commitIndex)) =
        (runs (receive codec) n (before ++ args :: (middle ++ after))).map
          fun final => (final.ps.log, final.commitIndex) := by
  constructor
  · intro messages final sent spans ran index found
    refine (keeps (fun m => m.ps.currentTerm = n.ps.currentTerm ∧ m.ps.log ≠ [] ∧
      m.ps.entryAt index = some (log index)) ran (spans.restrict sent) ⟨rfl, stored, found⟩ ?_).2.2
    rintro m args reached ⟨current, stored, found⟩ ⟨spans, sent⟩ received
    obtain ⟨_, delivers⟩ := receive_delivers (current ▸ sent) stored spans received
    exact ⟨delivers.currentTerm.trans current, delivers.stored stored, delivers.keeps stored found⟩
  · intro before args middle after sent spans accepted
    obtain ⟨first, rest⟩ := (spans.restrict sent).append
    rw [runs_append, runs_append]
    cases begun : runs (receive codec) n before with
    | none => rfl
    | some reached =>
      obtain ⟨current, stored⟩ := runs_follows rfl stored first begun
      obtain ⟨⟨spans, received⟩, rest⟩ := rest reached begun
      simp only [Option.bind_some, runs]
      cases taken : reached.receive codec args with
      | none => rfl
      | some next =>
        obtain ⟨bootstrap, delivers⟩ := receive_delivers (current ▸ received) stored spans taken
        have processed := delivers.processed bootstrap stored (accepted reached begun)
        obtain ⟨between, again⟩ := (rest next taken).append
        have current := delivers.currentTerm.trans current
        have stored := delivers.stored stored
        simp only [Option.bind_some, runs_append]
        cases ran : runs (receive codec) next middle with
        | none => rfl
        | some last =>
          have processed := processed.runs current stored between ran
          obtain ⟨current, stored⟩ := runs_follows current stored between ran
          simp only [Option.bind_some, runs]
          exact redelivered_runs processed (fun args inside => current ▸ sent args (by
            simp only [List.mem_append, List.mem_cons] at inside ⊢
            tauto)) stored (again last ran).1.1

end Statement

section Runs

def idleLog (index : Nat) : LogEntry := { term := if index = 0 then 0 else 1, index, command := [] }

def idleLeader (count next committed : Nat) : RaftNode :=
  { RaftNode.new "A" ["B"] with
    ps := { PersistentState.new with currentTerm := 1, log := (List.range (count + 1)).map idleLog }
    commitIndex := committed
    role := .leader
    leader := some { nextIndex := fun _ => some next, matchIndex := fun _ => some 0 } }

def idleFollower : RaftNode :=
  { RaftNode.new "B" ["A"] with ps := { PersistentState.new with currentTerm := 1 } }

def idleAppend (count next committed : Nat) : AppendEntriesArgs where
  term := 1
  leaderId := "A"
  prevLogIndex := next - 1
  prevLogTerm := (idleLeader count next committed).ps.termAt (next - 1)
  entries := (idleLeader count next committed).ps.entriesFrom next
  leaderCommit := committed

theorem idleLog_getElem? {count position : Nat} {entry : LogEntry}
    (found : ((List.range (count + 1)).map idleLog)[position]? = some entry) : entry = idleLog position := by
  rw [List.getElem?_map] at found
  obtain ⟨same, inside, rfl⟩ := Option.map_eq_some_iff.mp found
  rw [List.getElem?_range (List.getElem?_eq_some_iff.mp inside |>.1 |> List.length_range.subst)] at inside
  cases inside
  rfl

theorem idleLeader_builds {count next committed : Nat} (inside : committed ≤ count) :
    (idleLeader count next committed).Builds idleLog 1 where
  shape := {
    ps := {
      sentinel := by
        show ((List.range (count + 1)).map idleLog).head? = _
        rw [List.range_succ_eq_map]
        rfl
      indexes := by
        intro position entry found
        rw [idleLog_getElem? found]
        exact (Nat.zero_add _).symm
      terms := by
        refine List.pairwise_map.mpr (List.pairwise_lt_range.imp fun {first later} before => ?_)
        simp only [idleLog]
        split <;> split <;> omega
      bounded := by
        intro entry inside
        obtain ⟨index, _, rfl⟩ := List.mem_map.mp inside
        show (if index = 0 then 0 else 1) ≤ 1
        split <;> omega
      positive := by
        intro entry inside positive
        obtain ⟨index, _, rfl⟩ := List.mem_map.mp inside
        show 0 < if index = 0 then 0 else 1
        rw [if_neg (show index ≠ 0 from Nat.pos_iff_ne_zero.mp positive)]
        exact Nat.one_pos
      unsnapped := fun _ => rfl }
    data := ⟨fun _ => rfl, fun _ => rfl⟩
    term := fun _ => Nat.one_pos
    staged := fun _ staged => by cases staged }
  term := rfl
  entries := by
    intro index entry _ found
    exact idleLog_getElem? found
  boundary := fun positive => absurd positive (Nat.lt_irrefl 0)
  committed := by
    show committed ≤ 0 + ((List.range (count + 1)).map idleLog).length - 1
    rw [List.length_map, List.length_range]
    omega

theorem idleAppend_sent {count next committed : Nat} (inside : committed ≤ count) :
    SentWhile idleLog "A" 1 (idleAppend count next committed) :=
  ⟨idleLeader count next committed, "B", rfl, idleLeader_builds inside, rfl⟩

/-- An entry, its commit, and the entry once more. -/
theorem appends_redelivered_once :
    Throughout (RaftNode.receive plainCodec) (Spans idleLog) idleFollower
      [idleAppend 1 1 0, idleAppend 1 2 1, idleAppend 1 1 0, idleAppend 1 2 1] ∧
    (runs (RaftNode.receive plainCodec) idleFollower
      [idleAppend 1 1 0, idleAppend 1 2 1, idleAppend 1 1 0, idleAppend 1 2 1]).map
        (fun final => (final.ps.log, final.commitIndex)) = some ([idleLog 0, idleLog 1], 1) := by
  have spans : Throughout (RaftNode.receive plainCodec) (Spans idleLog) idleFollower
      [idleAppend 1 1 0, idleAppend 1 2 1, idleAppend 1 1 0, idleAppend 1 2 1] := by
    decide +kernel
  have sent : ∀ message ∈ [idleAppend 1 1 0, idleAppend 1 2 1, idleAppend 1 1 0, idleAppend 1 2 1],
      SentWhile idleLog "A" idleFollower.ps.currentTerm message := by
    simp only [List.mem_cons, List.not_mem_nil, or_false]
    rintro message (rfl | rfl | rfl | rfl) <;> exact idleAppend_sent (by decide)
  refine ⟨spans, ?_⟩
  refine ((appends_redelivered plainCodec idleLog "A" idleFollower (by decide)).2 []
    (idleAppend 1 1 0) [idleAppend 1 2 1] [idleAppend 1 2 1] sent spans ?_).trans (by decide +kernel)
  intro reached begun
  cases begun
  decide +kernel

/-- The first message of the leader, late and for the second time, cuts off the entry that its second
message brought. -/
theorem stale_append_removes :
    SentWhile idleLog "A" idleFollower.ps.currentTerm (idleAppend 1 1 0) ∧
    SentWhile idleLog "A" idleFollower.ps.currentTerm (idleAppend 2 1 0) ∧
    (runs (RaftNode.receive plainCodec) idleFollower [idleAppend 1 1 0, idleAppend 2 1 0]).map
      (fun final => (final.ps.log, final.ps.entryAt 2)) =
        some ([idleLog 0, idleLog 1, idleLog 2], some (idleLog 2)) ∧
    (runs (RaftNode.receive plainCodec) idleFollower
      [idleAppend 1 1 0, idleAppend 2 1 0, idleAppend 1 1 0]).map
        (fun final => (final.ps.log, final.ps.entryAt 2)) = some ([idleLog 0, idleLog 1], none) :=
  ⟨idleAppend_sent (by decide), idleAppend_sent (by decide), by decide +kernel, by decide +kernel⟩

end Runs

end Neuralbase.Consensus
